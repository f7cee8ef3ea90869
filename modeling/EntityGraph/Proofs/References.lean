import EntityGraph.Proofs.Schedule
import EntityGraph.Proofs.Transfers

/-! # References

What the foreign-key checks of a backend say about its tables: every reference of a row leads to a row,
and no other row refers to a key that is about to leave. -/
namespace EntityGraph

/-- Columns that refer to a key of an entity. -/
def Definition.Points (definition : Definition) (columns : Columns) (entity : String) (key : Key) : Prop :=
  ∃ relationship ∈ definition.relationships, relationship.target.text = entity ∧
    columns[relationship.field]?.bind Key.ofValue? = some key

theorem Catalog.mem_relationships {catalog : Catalog} {definition : Definition} {relationship : Relationship} :
    (definition, relationship) ∈ catalog.relationships ↔
      definition ∈ catalog.definitions ∧ relationship ∈ definition.relationships := by
  simp only [relationships, List.mem_flatMap, List.mem_map, Prod.mk.injEq]
  constructor
  · rintro ⟨owner, registered, link, declared, rfl, rfl⟩
    exact ⟨registered, declared⟩
  · rintro ⟨registered, declared⟩
    exact ⟨definition, registered, relationship, declared, rfl, rfl⟩

namespace MemoryBackend
variable {backend : MemoryBackend} {tables : Tables} {definition : Definition} {entity : String} {key : Key}
  {columns : Columns}

theorem dangling?_eq_none_iff : dangling? tables definition columns = none ↔
    ∀ (entity : String) (principal : Key), definition.Points columns entity principal →
      ∃ others, tables.row? entity principal = some others := by
  unfold dangling?
  rw [List.findSome?_eq_none_iff]
  constructor
  · rintro none entity principal ⟨relationship, declared, rfl, leads⟩
    have resolved := none relationship declared
    simp only [Option.bind_eq_bind, leads] at resolved
    split_ifs at resolved with held
    exact Tables.holds_iff.1 held
  · intro resolved relationship declared
    split
    · rfl
    · next principal leads =>
      have held := Tables.holds_iff.2 (resolved _ _ ⟨relationship, declared, rfl, leads⟩)
      rw [if_pos held]

/-- The check of a written row passes when foreign keys are off or every reference of the row leads to one. -/
theorem checkReferences_eq_ok_iff : backend.checkReferences tables definition key columns = .ok () ↔
    (backend.enforcing = true → ∀ (entity : String) (principal : Key),
      definition.Points columns entity principal → ∃ others, tables.row? entity principal = some others) := by
  rw [← dangling?_eq_none_iff]
  unfold checkReferences
  cases backend.enforcing <;> cases dangling? tables definition columns <;> simp

/-- A written row is refused for a relationship in which it holds the key of a missing row. -/
theorem checkReferences_eq_error {e : BackendError}
    (refused : backend.checkReferences tables definition key columns = .error e) :
    backend.enforcing = true ∧ ∃ relationship ∈ definition.relationships, ∃ principal : Key,
      columns[relationship.field]? = some principal.toValue ∧
      tables.row? relationship.target.text principal = none ∧
      e = .foreignKeyViolation definition.name.text key.display relationship.field relationship.target.text
        principal.display := by
  unfold checkReferences at refused
  split_ifs at refused with lax
  split at refused
  · cases refused
  · next relationship principal found =>
    cases refused
    refine ⟨by simpa using lax, relationship, ?_⟩
    obtain ⟨other, declared, leads⟩ := List.exists_of_findSome?_eq_some found
    split at leads
    · cases leads
    · next held holds =>
      split_ifs at leads with there
      cases leads
      obtain ⟨value, written, isKey⟩ := Option.bind_eq_some_iff.1 holds
      rw [Bool.not_eq_true, Tables.holds_eq_false_iff] at there
      exact ⟨declared, principal, by rw [written, Key.ofValue?_eq_some_iff.1 isKey], there, rfl⟩

theorem refers_iff {dependent : Definition} {relationship : Relationship} :
    refers tables dependent relationship entity key = true ↔
      ∃ place others, tables.row? dependent.name.text place = some others ∧
        others[relationship.field]?.bind Key.ofValue? = some key ∧
          ¬(dependent.name.text = entity ∧ place = key) := by
  simp only [refers, List.any_eq_true, Prod.exists, Std.ExtTreeMap.mem_toList_iff_getElem?_eq_some,
    Bool.and_eq_true, beq_iff_eq, Bool.not_eq_true', Bool.and_eq_false_iff, beq_eq_false_iff_ne, ne_eq,
    Option.bind_eq_some_iff, Key.ofValue?_eq_some_iff, exists_eq_right, not_and_or, Tables.row?]

/-- The check of a key that leaves passes when foreign keys are off or no row refers to the key, but perhaps
the row under it. -/
theorem checkUnreferenced_eq_ok_iff : backend.checkUnreferenced tables definition key = .ok () ↔
    (backend.enforcing = true → ∀ (dependent : Definition) (place : Key) (others : Columns),
      dependent ∈ backend.catalog.definitions → tables.row? dependent.name.text place = some others →
        dependent.Points others definition.name.text key →
          dependent.name.text = definition.name.text ∧ place = key) := by
  have none_iff : ∀ {leads : Definition × Relationship → Bool},
      (∀ dependent relationship, leads (dependent, relationship) =
        (relationship.target.text == definition.name.text &&
          refers tables dependent relationship definition.name.text key)) →
      (backend.catalog.relationships.find? leads = none ↔
        ∀ (dependent : Definition) (place : Key) (others : Columns),
          dependent ∈ backend.catalog.definitions → tables.row? dependent.name.text place = some others →
            dependent.Points others definition.name.text key →
              dependent.name.text = definition.name.text ∧ place = key) := by
    intro leads same
    simp only [List.find?_eq_none, Prod.forall, Catalog.mem_relationships, same, Bool.and_eq_true, beq_iff_eq,
      refers_iff]
    constructor
    · rintro none dependent place others registered held ⟨relationship, declared, target, leads⟩
      by_contra elsewhere
      exact none dependent relationship ⟨registered, declared⟩ ⟨target, place, others, held, leads, elsewhere⟩
    · rintro own dependent relationship ⟨registered, declared⟩ ⟨target, place, others, held, leads, elsewhere⟩
      exact elsewhere (own dependent place others registered held ⟨relationship, declared, target, leads⟩)
  unfold checkUnreferenced
  cases backend.enforcing
  · simp
  · simp only [Bool.not_true, Bool.false_eq_true, if_false, forall_const]
    split
    · next none => exact iff_of_true rfl ((none_iff fun _ _ => rfl).1 none)
    · next found =>
      refine iff_of_false (by simp) fun unreferenced => ?_
      rw [(none_iff fun _ _ => rfl).2 unreferenced] at found
      cases found

/-- A key may not leave while the row of a dependent, other than the row itself, refers to it. -/
theorem checkUnreferenced_eq_error {e : BackendError}
    (refused : backend.checkUnreferenced tables definition key = .error e) :
    backend.enforcing = true ∧ ∃ dependent ∈ backend.catalog.definitions, ∃ (place : Key) (others : Columns),
      tables.row? dependent.name.text place = some others ∧
      dependent.Points others definition.name.text key ∧
      ¬(dependent.name.text = definition.name.text ∧ place = key) ∧
      e = .stillReferenced definition.name.text key.display dependent.name.text := by
  unfold checkUnreferenced at refused
  split_ifs at refused with lax
  dsimp only at refused
  split at refused
  · cases refused
  · next dependent relationship found =>
    cases refused
    obtain ⟨registered, declared⟩ := Catalog.mem_relationships.1 (List.mem_of_find?_eq_some found)
    have chosen := List.find?_some found
    obtain ⟨target, leads⟩ := Bool.and_eq_true_iff.1 chosen
    obtain ⟨place, others, held, leads, elsewhere⟩ := refers_iff.1 leads
    exact ⟨by simpa using lax, dependent, registered, place, others, held,
      ⟨relationship, declared, beq_iff_eq.1 target, leads⟩, elsewhere, rfl⟩

/-- A row may not move to a key that is taken or from a key that is still referred to. -/
theorem checkMove_eq_error {source target : Key} {e : BackendError}
    (refused : backend.checkMove tables definition source target = .error e) :
    (target ≠ source ∧ tables.holds definition.name.text target = true ∧
      e = .duplicateKey definition.name.text target.display) ∨
      backend.checkUnreferenced tables definition source = .error e := by
  unfold checkMove at refused
  split_ifs at refused with stays held
  · cases refused
    exact .inl ⟨stays, held, rfl⟩
  · exact .inr refused

end MemoryBackend
end EntityGraph
