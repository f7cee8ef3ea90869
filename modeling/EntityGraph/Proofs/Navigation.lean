import EntityGraph.Graph.Navigation
import EntityGraph.Proofs.Coherence
import EntityGraph.Proofs.References

/-! # Navigation

From a dependent to its principal and from a principal to its dependents, a graph answers from two
different places: the row of the dependent, and the groups. Every declared inverse leads to the groups
of its own relationship, and these hold just the rows that refer to the principal, so the two directions
agree. -/
namespace EntityGraph

namespace Catalog
variable {catalog : Catalog} {name : String} {definition : Definition} {relationship : Relationship}

theorem declared_of_registered (registered : catalog.entities[name]? = some definition)
    (declared : relationship ∈ definition.relationships) : (definition, relationship) ∈ catalog.relationships := by
  rw [mem_relationships, mem_definitions, name_of_entities registered]
  exact ⟨registered, declared⟩

/-- The principal of a relationship with the name under which it knows its dependents. -/
def inverseName? (entry : Definition × Relationship) : Option (String × String) :=
  entry.2.inverse.map fun inverse => (entry.2.target.text, inverse)

/-- Every relationship fits its target, and no principal has two inverses of one name. -/
theorem relationships_of_check {seen : List (String × String)} {entries : List (Definition × Relationship)}
    (h : catalog.checkRelationships seen entries = .ok ()) :
    (∀ entry ∈ entries, catalog.checkTarget entry.1 entry.2 = .ok ()) ∧
      (∀ inverse ∈ entries.filterMap inverseName?, inverse ∉ seen) ∧ (entries.filterMap inverseName?).Nodup := by
  induction entries generalizing seen with
  | nil => simp
  | cons entry entries ih =>
    obtain ⟨definition, relationship⟩ := entry
    obtain ⟨first, h⟩ := check_eq_ok_iff.1 h
    cases declared : relationship.inverse with
    | none =>
      rw [declared] at h
      obtain ⟨targets, fresh, distinct⟩ := ih h
      rw [List.filterMap_cons_none (by simp [inverseName?, declared])]
      exact ⟨List.forall_mem_cons.2 ⟨first, targets⟩, fresh, distinct⟩
    | some inverse =>
      simp only [declared] at h
      split_ifs at h with repeated
      obtain ⟨targets, fresh, distinct⟩ := ih h
      rw [List.filterMap_cons_some (b := (relationship.target.text, inverse)) (by simp [inverseName?, declared])]
      refine ⟨List.forall_mem_cons.2 ⟨first, targets⟩, List.forall_mem_cons.2 ⟨repeated, ?_⟩, ?_⟩
      · exact fun other member seen => fresh other member (by simp [seen])
      · exact List.nodup_cons.2 ⟨fun member => fresh _ member (by simp), distinct⟩

/-- The target of a relationship of a valid catalog is registered. -/
theorem target_registered (valid : catalog.validate = .ok ()) (registered : catalog.entities[name]? = some definition)
    (declared : relationship ∈ definition.relationships) :
    ∃ target, catalog.entities[relationship.target.text]? = some target := by
  have checked := (relationships_of_check valid).1 _ (declared_of_registered registered declared)
  cases found : catalog.entities[relationship.target.text]? with
  | none => simp [checkTarget, found] at checked
  | some target => exact ⟨target, rfl⟩

end Catalog

/-- The key of the row to which a row refers. -/
def Row.principal? (row : Row) (relationship : Relationship) : Option Key :=
  (row.get? relationship.field).bind Key.ofValue?

namespace Graph
variable {catalog : Catalog} {config : GraphConfig} {graph : Graph} {name : String} {set target : EntitySet}
  {relationship : Relationship}

/-- The inverses of a graph are those of its catalog. -/
theorem Reachable.inverses_eq (reachable : Reachable catalog config graph) :
    graph.inverses = .ofList (catalog.relationships.filterMap fun entry => inverseOf? entry.1 entry.2) := by
  refine reachable.invariant (fun graph => graph.inverses = _) (fun opened => ?_) fun event _ same => ?_
  · obtain ⟨-, opened⟩ := check_eq_ok_iff.1 opened
    cases opened
    rfl
  · cases event <;> exact same

/-- No inverse of a valid catalog is shadowed by another one. -/
theorem inverses_distinct (valid : catalog.validate = .ok ()) :
    (catalog.relationships.filterMap fun entry => inverseOf? entry.1 entry.2).Pairwise
      fun one other => ¬compare one.1 other.1 = .eq := by
  have distinct := (Catalog.relationships_of_check valid).2.2
  rw [List.Nodup, List.pairwise_filterMap] at distinct
  rw [List.pairwise_filterMap]
  refine distinct.imp fun {one other} apart first hfirst second hsecond same => ?_
  obtain ⟨inverse, declared, rfl⟩ := Option.map_eq_some_iff.1 hfirst
  obtain ⟨inverse', declared', rfl⟩ := Option.map_eq_some_iff.1 hsecond
  obtain ⟨target, name⟩ := Link.mk.inj (Std.compare_eq_iff_eq.1 same)
  refine apart (one.2.target.text, inverse) ?_ (other.2.target.text, inverse') ?_ (by rw [target, name])
  · simp [Catalog.inverseName?, declared]
  · simp [Catalog.inverseName?, declared']

/-- A declared inverse leads to the groups of its own relationship. -/
theorem Reachable.inverse_found (reachable : Reachable catalog config graph) {definition : Definition}
    (registered : catalog.entities[name]? = some definition)
    (declared : relationship ∈ definition.relationships) {inverse : String}
    (named : relationship.inverse = some inverse) :
    graph.inverses[(⟨relationship.target.text, inverse⟩ : Link)]? = some ⟨name, relationship.name⟩ := by
  have valid : catalog.validate = .ok () := reachable.catalog_eq ▸ reachable.sound.valid
  rw [reachable.inverses_eq]
  refine Std.ExtTreeMap.getElem?_ofList_of_mem Std.compare_self (inverses_distinct valid) (List.mem_filterMap.2 ?_)
  refine ⟨(definition, relationship), Catalog.declared_of_registered registered declared, ?_⟩
  simp [inverseOf?, named, Catalog.name_of_entities registered]

/-- The members of a group are the rows that refer to its principal. -/
theorem Coherent.mem_members_iff (coherent : graph.Coherent) (sound : graph.Sound)
    (found : graph.entities[name]? = some set) (declared : relationship ∈ set.definition.relationships)
    {principal key : Key} : key ∈ graph.groups.members name relationship.name principal ↔
      ∃ row, set.get? key = some row ∧ row.principal? relationship = some principal := by
  rw [Groups.mem_members_iff, coherent.member, found]
  simp only [Option.some.injEq, exists_eq_left', EntitySet.Refers]
  refine exists_congr fun row => and_congr_right fun _ => ?_
  rw [Groups.mem_principals_iff, sound.name_eq found]
  constructor
  · rintro ⟨other, listed, same, leads⟩
    have same : other = relationship :=
      List.inj_on_of_nodup_map (sound.definition_valid found).names listed declared (by simpa using Eq.symm same)
    rwa [same] at leads
  · exact fun leads => ⟨relationship, declared, rfl, leads⟩

/-- The rows under the members of a group, with their keys. -/
def groupEntries (graph : Graph) (set : EntitySet) (relationship : String) (principal : Key) : List (Key × Row) :=
  (graph.groups.members set.definition.name.text relationship principal).filterMap fun key =>
    (set.get? key).map fun row => (key, row)

theorem groupEntries_sorted {relationship : String} {principal : Key} :
    (graph.groupEntries set relationship principal).Pairwise fun one other => compare one.1 other.1 = .lt := by
  rw [groupEntries, List.pairwise_filterMap]
  refine (Groups.members_sorted _ _ _ _).imp fun before one hone other hother => ?_
  obtain ⟨row, -, rfl⟩ := Option.map_eq_some_iff.1 hone
  obtain ⟨row', -, rfl⟩ := Option.map_eq_some_iff.1 hother
  exact before

/-- The entries of a group are the rows of the entity that refer to its principal. -/
theorem Coherent.mem_groupEntries_iff (coherent : graph.Coherent) (sound : graph.Sound)
    (found : graph.entities[name]? = some set) (declared : relationship ∈ set.definition.relationships)
    {principal key : Key} {row : Row} : (key, row) ∈ graph.groupEntries set relationship.name principal ↔
      set.get? key = some row ∧ row.principal? relationship = some principal := by
  rw [groupEntries, sound.name_eq found, List.mem_filterMap]
  constructor
  · rintro ⟨member, listed, entry⟩
    obtain ⟨other, held, leads⟩ := (coherent.mem_members_iff sound found declared).1 listed
    simp only [held, Option.map_some, Option.some.injEq, Prod.mk.injEq] at entry
    obtain ⟨rfl, rfl⟩ := entry
    exact ⟨held, leads⟩
  · rintro ⟨held, leads⟩
    exact ⟨key, (coherent.mem_members_iff sound found declared).2 ⟨row, held, leads⟩, by rw [held]; rfl⟩

theorem relationship_eq_ok {definition : Definition} (valid : definition.Valid)
    (declared : relationship ∈ definition.relationships) :
    Graph.relationship definition relationship.name = .ok relationship := by
  simp [Graph.relationship, valid.relationship?_of_mem declared]

theorem mem_of_relationship {definition : Definition} {relationship : String} {declared : Relationship}
    (known : Graph.relationship definition relationship = .ok declared) :
    declared ∈ definition.relationships := by
  unfold Graph.relationship at known
  split at known
  · next found =>
    cases known
    exact List.mem_of_find?_eq_some found
  · cases known

theorem group_eq (sound : graph.Sound) (found : graph.entities[name]? = some set)
    (declared : relationship ∈ set.definition.relationships) (principal : Key) :
    graph.group name relationship.name principal =
      .ok ((graph.groupEntries set relationship.name principal).map Prod.snd) := by
  have rows : (graph.groupEntries set relationship.name principal).map Prod.snd =
      (graph.groups.members set.definition.name.text relationship.name principal).filterMap set.get? := by
    simp [groupEntries, List.map_filterMap, Function.comp_def]
  rw [rows]
  exact bind_eq_ok_iff.2 ⟨set, entity_eq_ok_iff.2 found,
    bind_eq_ok_iff.2 ⟨relationship, relationship_eq_ok (sound.definition_valid found) declared, rfl⟩⟩

theorem children_eq (reachable : Reachable catalog config graph) (found : graph.entities[name]? = some set)
    (principal_found : graph.entities[relationship.target.text]? = some target)
    (declared : relationship ∈ set.definition.relationships) {inverse : String}
    (named : relationship.inverse = some inverse) (principal : Key) :
    graph.children relationship.target.text principal inverse =
      .ok ((graph.groupEntries set relationship.name principal).map Prod.snd) := by
  have sound := reachable.sound
  have registered := sound.definition found
  rw [reachable.catalog_eq] at registered
  rw [← group_eq sound found declared]
  simp only [children, entity_eq_ok_iff.2 principal_found, sound.name_eq principal_found, bind, Except.bind,
    reachable.inverse_found registered declared named]

/-- The targets of relationships are entities of the graph. -/
theorem Sound.target_found (h : graph.Sound) (found : graph.entities[name]? = some set)
    (declared : relationship ∈ set.definition.relationships) :
    ∃ target, graph.entities[relationship.target.text]? = some target := by
  obtain ⟨principal, registered⟩ := Catalog.target_registered h.valid (h.definition found) declared
  rw [← h.definitions, Option.map_eq_some_iff] at registered
  obtain ⟨target, there, -⟩ := registered
  exact ⟨target, there⟩

/-- A reference is resolved among the rows of its target. -/
theorem referenceOf_eq (sound : graph.Sound) (found : graph.entities[name]? = some set)
    (target_found : graph.entities[relationship.target.text]? = some target)
    (declared : relationship ∈ set.definition.relationships) {key : Key} {row : Row}
    (held : set.get? key = some row) :
    let unresolved (missing : String) : GraphError :=
      .unresolvedReference name key.display relationship.name relationship.target.text missing
    graph.referenceOf name key relationship.name =
      (row.principal? relationship).elim
        (if set.definition.isRequired relationship then .error (unresolved "null") else .ok none)
        fun principal =>
          (target.get? principal).elim (.error (unresolved principal.display)) fun row => .ok (some row) := by
  obtain ⟨slot, hs, rfl⟩ := EntitySet.get?_eq_some_iff.1 held
  have tracked := sound.tracked found
  have owned := tracked.definition hs
  have keyed : slot.row.key? = some key := by rw [Row.key?, owned, (tracked.row hs).2]
  simp only [referenceOf, row_eq_ok_iff.2 ⟨set, found, held⟩, bind, Except.bind, reference, owned, keyed,
    Option.map_some, Option.getD_some, sound.name_eq found, entity_eq_ok_iff.2 target_found,
    relationship_eq_ok (sound.definition_valid found) declared, Row.principal?]
  cases (slot.row.get? relationship.field).bind Key.ofValue? with
  | none => rfl
  | some principal => cases there : target.get? principal <;> simp [there]

theorem referenceOf_of_absent (found : graph.entities[name]? = some set) {key : Key} (absent : set.get? key = none)
    {relationship : String} : graph.referenceOf name key relationship = .error (.rowNotFound name key.display) := by
  simp only [referenceOf, Graph.row, entity_eq_ok_iff.2 found, absent, bind, Except.bind]

/-- A row leads nowhere just while the field of the relationship is null. -/
theorem principal?_eq_none_iff (sound : graph.Sound) (found : graph.entities[name]? = some set)
    (declared : relationship ∈ set.definition.relationships) {key : Key} {row : Row}
    (held : set.get? key = some row) :
    row.principal? relationship = none ↔ row.get? relationship.field = some .null := by
  obtain ⟨slot, hs, rfl⟩ := EntitySet.get?_eq_some_iff.1 held
  have fits := ((sound.tracked found).row hs).1
  obtain ⟨-, field, typed, keyType⟩ := (sound.definition_valid found).fields relationship declared
  obtain ⟨value, there⟩ := fits.value_of_field? typed
  simp only [Row.principal?, Row.get?, there, Option.bind_some, Option.some.injEq]
  constructor
  · intro nowhere
    by_contra written
    have present : value.isNull = false := by cases value <;> simp_all [Value.isNull]
    obtain ⟨principal, leads⟩ := DataType.key_of_admits keyType (fits.admits typed there) present
    simp [leads] at nowhere
  · rintro rfl
    rfl

/-- A row stands under no other key than its own. -/
theorem key_unique (sound : graph.Sound) (found : graph.entities[name]? = some set) {one other : Key} {row : Row}
    (hone : set.get? one = some row) (hother : set.get? other = some row) : one = other := by
  have tracked := sound.tracked found
  obtain ⟨slot, hs, rfl⟩ := EntitySet.get?_eq_some_iff.1 hone
  obtain ⟨slot', hs', same⟩ := EntitySet.get?_eq_some_iff.1 hother
  have key := (tracked.row hs').2
  rw [same] at key
  exact Option.some.inj ((tracked.row hs).2.symm.trans key)

/-- A reference leads to the row under a key just if the dependent holds this key. -/
theorem referenceOf_eq_row_iff (sound : graph.Sound) (found : graph.entities[name]? = some set)
    (target_found : graph.entities[relationship.target.text]? = some target)
    (declared : relationship ∈ set.definition.relationships) {key principal : Key} {there : Row}
    (held : target.get? principal = some there) :
    graph.referenceOf name key relationship.name = .ok (some there) ↔
      ∃ row, set.get? key = some row ∧ row.principal? relationship = some principal := by
  cases hk : set.get? key with
  | none => simp [referenceOf_of_absent found hk]
  | some row =>
    rw [referenceOf_eq sound found target_found declared hk]
    cases leads : row.principal? relationship with
    | none => by_cases required : set.definition.isRequired relationship <;> simp [required, leads]
    | some parent =>
      simp only [Option.elim_some, Option.some.injEq, exists_eq_left', leads]
      constructor
      · intro resolved
        cases hp : target.get? parent with
        | none => simp [hp] at resolved
        | some other =>
          simp only [hp, Option.elim_some, Except.ok.injEq, Option.some.injEq] at resolved
          exact key_unique sound target_found hp (resolved ▸ held)
      · rintro rfl
        simp [held]

/-- A reference leads to no row just if the field of the dependent is null and may be so. -/
theorem referenceOf_eq_none_iff (sound : graph.Sound) (found : graph.entities[name]? = some set)
    (target_found : graph.entities[relationship.target.text]? = some target)
    (declared : relationship ∈ set.definition.relationships) {key : Key} :
    graph.referenceOf name key relationship.name = .ok none ↔
      ∃ row, set.get? key = some row ∧ row.get? relationship.field = some .null ∧
        set.definition.isRequired relationship = false := by
  cases hk : set.get? key with
  | none => simp [referenceOf_of_absent found hk]
  | some row =>
    rw [referenceOf_eq sound found target_found declared hk]
    simp only [Option.some.injEq, exists_eq_left', ← principal?_eq_none_iff sound found declared hk]
    cases leads : row.principal? relationship with
    | none => by_cases required : set.definition.isRequired relationship <;> simp [required]
    | some parent => cases hp : target.get? parent <;> simp [hp]

/-- A reference of a row leads to a row of the target, to none, or is refused as unresolved. -/
theorem referenceOf_outcomes (sound : graph.Sound) (found : graph.entities[name]? = some set)
    (target_found : graph.entities[relationship.target.text]? = some target)
    (declared : relationship ∈ set.definition.relationships) {key : Key} {row : Row}
    (held : set.get? key = some row) :
    graph.referenceOf name key relationship.name = .ok none ∨
      (∃ principal there, target.get? principal = some there ∧
        graph.referenceOf name key relationship.name = .ok (some there)) ∨
      graph.referenceOf name key relationship.name = .error (.unresolvedReference name key.display
        relationship.name relationship.target.text ((row.principal? relationship).elim "null" Key.display)) := by
  rw [referenceOf_eq sound found target_found declared held]
  cases row.principal? relationship with
  | none => by_cases required : set.definition.isRequired relationship <;> simp [required]
  | some parent =>
    cases hp : target.get? parent with
    | none => simp [hp]
    | some there => exact .inr (.inl ⟨parent, there, hp, by simp [hp]⟩)

/-- Every relationship is answered alike from both sides. Through its inverse a principal knows just the
rows that hold its key, in key order, and each of these rows leads to the principal while it is there. A
row leads to no principal just if its field is null and may be so; otherwise the reference is unresolved. -/
theorem Reachable.navigation_agrees (reachable : Reachable catalog config graph) {definition : Definition}
    (registered : catalog.entities[name]? = some definition) (declared : relationship ∈ definition.relationships) :
    ∃ set target, graph.entities[name]? = some set ∧ graph.entities[relationship.target.text]? = some target ∧
      (∀ (inverse : String) (principal : Key), relationship.inverse = some inverse → ∃ entries : List (Key × Row),
        graph.children relationship.target.text principal inverse = .ok (entries.map Prod.snd) ∧
        entries.Pairwise (fun one other => compare one.1 other.1 = .lt) ∧
        ∀ (key : Key) (row : Row), (key, row) ∈ entries ↔
          set.get? key = some row ∧ row.principal? relationship = some principal) ∧
      ∀ key : Key,
        (∀ (principal : Key) (there : Row), target.get? principal = some there →
          (graph.referenceOf name key relationship.name = .ok (some there) ↔
            ∃ row, set.get? key = some row ∧ row.principal? relationship = some principal)) ∧
        (graph.referenceOf name key relationship.name = .ok none ↔
          ∃ row, set.get? key = some row ∧ row.get? relationship.field = some .null ∧
            definition.isRequired relationship = false) ∧
        ∀ row : Row, set.get? key = some row →
          graph.referenceOf name key relationship.name = .ok none ∨
          (∃ principal there, target.get? principal = some there ∧
            graph.referenceOf name key relationship.name = .ok (some there)) ∨
          graph.referenceOf name key relationship.name = .error (.unresolvedReference name key.display
            relationship.name relationship.target.text ((row.principal? relationship).elim "null" Key.display)) := by
  have sound := reachable.sound
  rw [← reachable.catalog_eq] at registered
  obtain ⟨principal, target_registered⟩ := Catalog.target_registered sound.valid registered declared
  rw [← sound.definitions, Option.map_eq_some_iff] at registered target_registered
  obtain ⟨set, found, rfl⟩ := registered
  obtain ⟨target, target_found, rfl⟩ := target_registered
  refine ⟨set, target, found, target_found, fun inverse principal named => ?_, fun key => ⟨?_, ?_, ?_⟩⟩
  · exact ⟨_, children_eq reachable found target_found declared named principal, groupEntries_sorted,
      fun key row => reachable.coherent.mem_groupEntries_iff sound found declared⟩
  · exact fun principal there => referenceOf_eq_row_iff sound found target_found declared
  · exact referenceOf_eq_none_iff sound found target_found declared
  · exact fun row => referenceOf_outcomes sound found target_found declared

end Graph

namespace Family

def personName : EntityName := ⟨"person", by decide +kernel⟩

def father : Relationship := ⟨"father", "father", personName, some "fathered"⟩

def mother : Relationship := ⟨"mother", "mother", personName, some "mothered"⟩

def person : Definition where
  name := personName
  key := "id"
  fields := [⟨"id", .integer, true, none, none⟩, ⟨"father", .integer, false, none, none⟩,
    ⟨"mother", .integer, false, none, none⟩]
  relationships := [father, mother]
  parameters := []
  readOnly := false
  description := none

/-- Persons who may have a father and a mother. Both relationships lead to the same entity, under two
inverses. -/
def catalog : Catalog where
  entities := .ofList [("person", person)]
  registered _ _ found := by
    cases List.mem_singleton.1 (mem_of_getElem?_ofList found)
    exact ⟨rfl, by decide +kernel⟩

def columns (id : Int64) (father mother : Value) : Columns :=
  .ofList [("id", .integer id), ("father", father), ("mother", mother)]

/-- A man, a woman, and a child of his that has no mother yet. -/
def persons : Table :=
  .ofList [(Key.integer 1, columns 1 .null .null), (Key.integer 2, columns 2 .null .null),
    (Key.integer 3, columns 3 (.integer 1) .null)]

def registry : MemoryBackend where
  catalog := catalog
  tables := .ofList [("person", persons)]
  batches := []
  handlers := ∅
  available := true
  enforcing := true

/-- A graph on the catalog before any query. -/
def opened : Graph where
  catalog := catalog
  config := {}
  order := [person]
  entities := .ofList [("person", EntitySet.empty person)]
  groups := .empty
  inverses := .ofList [(Link.mk "person" "fathered", Link.mk "person" "father"),
    (Link.mk "person" "mothered", Link.mk "person" "mother")]
  commands := []

theorem ofCatalog_opened : Graph.ofCatalog catalog {} = .ok opened := by decide +kernel

theorem opened_reachable : Graph.Reachable catalog {} opened := .start ofCatalog_opened

/-- A graph that holds the persons of the registry. -/
def loaded : Graph := (opened.query registry "person" ∅ 0).2

theorem loaded_reachable : Graph.Reachable catalog {} loaded := .step opened_reachable (.query registry "person" ∅ 0)

theorem loaded_navigation_agrees :
    ∃ set, loaded.entities["person"]? = some set ∧ ∀ principal : Key, ∃ entries : List (Key × Row),
      loaded.children "person" principal "fathered" = .ok (entries.map Prod.snd) ∧
      entries.Pairwise (fun one other => compare one.1 other.1 = .lt) ∧
      ∀ (key : Key) (row : Row), (key, row) ∈ entries ↔
        set.get? key = some row ∧ row.principal? father = some principal := by
  have declared : father ∈ person.relationships := List.mem_cons_self
  have registered : catalog.entities["person"]? = some person := rfl
  obtain ⟨set, _, found, -, down, -⟩ :=
    Graph.Reachable.navigation_agrees loaded_reachable registered declared
  exact ⟨set, found, fun principal => down "fathered" principal rfl⟩

example : (loaded.children "person" (.integer 1) "fathered").map (List.map Row.key?) = .ok [some (.integer 3)] := by
  decide +kernel

end Family
end EntityGraph
