import EntityGraph.Catalog
import EntityGraph.Proofs.Outcomes

/-! # Valid definitions

What the checks of a definition guarantee about its key, its relationships and its parameters. -/
namespace EntityGraph

/-- Among elements with different names each is found by its name. -/
theorem find?_of_distinct {α : Type} {name : α → String} {elements : List α}
    (distinct : (elements.map name).Nodup) {element : α} (member : element ∈ elements) :
    (elements.find? fun other => name other == name element) = some element := by
  induction elements with
  | nil => cases member
  | cons first elements ih =>
    rw [List.map_cons, List.nodup_cons] at distinct
    rcases List.mem_cons.1 member with rfl | later
    · simp
    · have differs : name first ≠ name element := fun same =>
        distinct.1 (same ▸ List.mem_map_of_mem later)
      rw [List.find?_cons_of_neg (by simpa using differs)]
      exact ih distinct.2 later

/-- A name that was not seen comes before names that are different from it and from those seen. -/
theorem distinct_cons {α : Type} {name : α → String} {seen : List String} {first : α} {elements : List α}
    (fresh : name first ∉ seen) (unseen : ∀ element ∈ elements, name element ∉ name first :: seen)
    (distinct : (elements.map name).Nodup) :
    (∀ element ∈ first :: elements, name element ∉ seen) ∧ ((first :: elements).map name).Nodup := by
  refine ⟨?_, List.nodup_cons.2 ⟨fun repeated => ?_, distinct⟩⟩
  · rintro element (_ | ⟨_, member⟩)
    · exact fresh
    · exact fun found => unseen element member (List.mem_cons_of_mem _ found)
  · obtain ⟨element, member, same⟩ := List.mem_map.1 repeated
    exact unseen element member (same ▸ List.mem_cons_self)

namespace Definition
variable {definition : Definition}

/-- Fields have different names. -/
theorem fields_of_check {entity : String} {seen : List String} {fields : List Field}
    (h : checkFields entity seen fields = .ok ()) :
    (∀ field ∈ fields, field.name ∉ seen) ∧ (fields.map Field.name).Nodup := by
  induction fields generalizing seen with
  | nil => simp
  | cons field fields ih =>
    simp only [checkFields] at h
    split_ifs at h with repeated
    obtain ⟨unseen, distinct⟩ := ih h
    exact distinct_cons repeated unseen distinct

/-- The key is a required field of a type that keys may have. -/
theorem keyField_of_checkKey (h : definition.checkKey = .ok ()) :
    ∃ field, definition.keyField? = some field ∧ field.type.isKeyType = true ∧ field.required = true := by
  unfold checkKey at h
  cases hk : definition.keyField? with
  | none => simp [hk] at h
  | some field =>
    refine ⟨field, rfl, ?_⟩
    simp only [hk] at h
    split_ifs at h with ht hr
    simp_all

/-- Relationships have different names, and their fields are declared, of a key type and not the key. -/
theorem relationships_of_check {seen : List String} {relationships : List Relationship}
    (h : definition.checkRelationships seen relationships = .ok ()) :
    (∀ relationship ∈ relationships, relationship.name ∉ seen) ∧
      (relationships.map Relationship.name).Nodup ∧
      ∀ relationship ∈ relationships, relationship.field ≠ definition.key ∧
        ∃ field, definition.field? relationship.field = some field ∧ field.type.isKeyType = true := by
  induction relationships generalizing seen with
  | nil => simp
  | cons relationship relationships ih =>
    simp only [checkRelationships] at h
    split at h
    · cases h
    · next fresh =>
      cases hf : definition.field? relationship.field with
      | none => simp [hf] at h
      | some field =>
        simp only [hf] at h
        split_ifs at h with ht hk
        obtain ⟨unseen, distinct, hfields⟩ := ih h
        obtain ⟨unseen, distinct⟩ := distinct_cons fresh unseen distinct
        refine ⟨unseen, distinct, ?_⟩
        rintro other (_ | ⟨_, member⟩)
        · exact ⟨by simpa using hk, field, hf, by simpa using ht⟩
        · exact hfields other member

/-- Parameters have different names and defaults that convert to their types. -/
theorem parameters_of_check {seen : List String} {parameters : List Parameter}
    (h : definition.checkParameters seen parameters = .ok ()) :
    (∀ parameter ∈ parameters, parameter.name ∉ seen) ∧ (parameters.map Parameter.name).Nodup ∧
      ∀ parameter ∈ parameters, (parameter.type.coerce? parameter.default).isSome = true := by
  induction parameters generalizing seen with
  | nil => simp
  | cons parameter parameters ih =>
    simp only [checkParameters] at h
    split_ifs at h with repeated unfit
    split at h
    · cases h
    · obtain ⟨unseen, distinct, defaults⟩ := ih h
      obtain ⟨unseen, distinct⟩ := distinct_cons repeated unseen distinct
      exact ⟨unseen, distinct, List.forall_mem_cons.2 ⟨by simpa [Option.isSome_iff_ne_none] using unfit, defaults⟩⟩

theorem validate_eq_ok_iff :
    definition.validate = .ok () ↔
      checkFields definition.name.text [] definition.fields = .ok () ∧ definition.checkKey = .ok () ∧
        definition.checkRelationships [] definition.relationships = .ok () ∧
        definition.checkParameters [] definition.parameters = .ok () := by
  simp only [validate, check_eq_ok_iff]

/-- What later proofs use of a definition that passed its checks. -/
structure Valid (definition : Definition) : Prop where
  key : ∃ field, definition.keyField? = some field ∧ field.type.isKeyType = true ∧ field.required = true
  names : (definition.relationships.map Relationship.name).Nodup
  fields : ∀ relationship ∈ definition.relationships, relationship.field ≠ definition.key ∧
    ∃ field, definition.field? relationship.field = some field ∧ field.type.isKeyType = true

theorem valid_of_validate (h : definition.validate = .ok ()) : definition.Valid := by
  obtain ⟨-, hk, hr, -⟩ := validate_eq_ok_iff.1 h
  obtain ⟨-, hnames, hfields⟩ := relationships_of_check hr
  exact ⟨keyField_of_checkKey hk, hnames, hfields⟩

theorem field?_of_mem (h : definition.validate = .ok ()) {field : Field} (declared : field ∈ definition.fields) :
    definition.field? field.name = some field :=
  find?_of_distinct (fields_of_check (validate_eq_ok_iff.1 h).1).2 declared

theorem Valid.relationship?_of_mem (h : definition.Valid) {relationship : Relationship}
    (declared : relationship ∈ definition.relationships) :
    definition.relationship? relationship.name = some relationship :=
  find?_of_distinct h.names declared

/-- The field of a relationship is not the key field, and of a key type. -/
theorem Valid.of_relationshipsOn (h : definition.Valid) {relationship : Relationship} {name : String}
    (declared : relationship ∈ definition.relationshipsOn name) :
    name ≠ definition.key ∧ ∃ field, definition.field? name = some field ∧ field.type.isKeyType = true := by
  obtain ⟨linked, isField⟩ := List.mem_filter.1 declared
  cases beq_iff_eq.1 isField
  exact h.fields relationship linked

theorem Valid.requires_key (h : definition.Valid) : definition.requires definition.key = true := by
  obtain ⟨field, hf, -, hr⟩ := h.key
  rw [keyField?] at hf
  simp [requires, hf, hr]

end Definition

namespace Catalog
variable {catalog : Catalog} {name : String} {definition : Definition}

theorem valid_of_entities (h : catalog.entities[name]? = some definition) : definition.Valid :=
  Definition.valid_of_validate (catalog.registered name definition h).2

theorem name_of_entities (h : catalog.entities[name]? = some definition) :
    definition.name.text = name :=
  (catalog.registered name definition h).1

end Catalog
end EntityGraph
