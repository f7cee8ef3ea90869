import EntityGraph.Proofs.Navigation
import EntityGraph.Proofs.Writes

/-! # References that writes leave

A foreign key that is written has to lead to a row of the target. Several relationships may share its field: a
write of the field looks at all of them that are required, a write through one of them at that one alone. -/
namespace EntityGraph.Graph
variable {catalog : Catalog} {config : GraphConfig} {graph : Graph} {name field : String} {key target principal : Key}
  {value written : Value} {set after : EntitySet} {definition : Definition} {relationship : Relationship}
  {slot slot' : Slot} {references : Bool} {groups : Groups}

theorem checkResolvable_eq_ok_iff : graph.checkResolvable definition key relationship value = .ok () ↔
    ∀ principal : Key, Key.ofValue? value = some principal →
      ∃ there, graph.row relationship.target.text principal = .ok there := by
  unfold checkResolvable
  cases leads : Key.ofValue? value with
  | none => simp
  | some principal =>
    simp only [bind_eq_ok_iff, entity_eq_ok_iff, row_eq_ok_iff, Option.some.injEq, forall_eq']
    constructor
    · rintro ⟨target, found, held⟩
      split_ifs at held with present
      obtain ⟨there, held⟩ := EntitySet.contains_iff.1 present
      exact ⟨there, target, found, held⟩
    · rintro ⟨there, target, found, held⟩
      exact ⟨target, found, if_pos (EntitySet.contains_iff.2 ⟨there, held⟩)⟩

/-- The check of a list of relationships is the check of those that are required. -/
theorem checkRequired_eq_ok_iff {relationships : List Relationship} :
    graph.checkRequired definition key value relationships = .ok () ↔ ∀ relationship ∈ relationships,
      definition.isRequired relationship = true →
        graph.checkResolvable definition key relationship value = .ok () := by
  induction relationships with
  | nil => simp [checkRequired]
  | cons relationship relationships ih =>
    rw [List.forall_mem_cons, ← ih, checkRequired]
    cases definition.isRequired relationship <;> simp [check_eq_ok_iff]

/-- The reference of a row leads to a row of its target. -/
def Resolves (graph : Graph) (name : String) (key : Key) (relationship : Relationship) : Prop :=
  ∃ principal there, graph.row relationship.target.text principal = .ok there ∧
    graph.referenceOf name key relationship.name = .ok (some there)

/-- A row that holds the key of a principal refers to it while it is there. -/
theorem resolves_iff (sound : graph.Sound) (found : graph.entities[name]? = some set)
    (declared : relationship ∈ set.definition.relationships) {row : Row} (held : set.get? key = some row)
    (leads : row.principal? relationship = some principal) :
    graph.Resolves name key relationship ↔ ∃ there, graph.row relationship.target.text principal = .ok there := by
  obtain ⟨target, target_found⟩ := sound.target_found found declared
  have reference := referenceOf_eq sound found target_found declared held
  simp only [leads, Option.elim_some] at reference
  constructor
  · rintro ⟨other, there, -, resolved⟩
    rw [reference] at resolved
    cases present : target.get? principal with
    | none => simp [present] at resolved
    | some there => exact ⟨there, row_eq_ok_iff.2 ⟨target, target_found, present⟩⟩
  · rintro ⟨there, held⟩
    obtain ⟨target', found', present⟩ := row_eq_ok_iff.1 held
    cases target_found.symm.trans found'
    exact ⟨principal, there, held, by rw [reference, present]; rfl⟩

/-- A row that stays under its key neither uncovers a key nor covers one. -/
theorem row_put_iff (found : graph.entities[name]? = some set) (held : set.rows[key]? = some slot)
    (moved : set.Moved after key key slot') {owner : String} :
    (∃ there, (graph.put name after groups).row owner principal = .ok there) ↔
      ∃ there, graph.row owner principal = .ok there := by
  simp only [row_eq_ok_iff, put_entities]
  by_cases same : name = owner
  · subst same
    by_cases here : principal = key
    · subst here
      simp [found, held, moved.arrived, EntitySet.get?]
    · simp [found, EntitySet.get?, (moved.others principal here here).1]
  · simp [same]

/-- After a write of a key to the field of a relationship, the relationship leads to the row under the key. -/
theorem Passes.resolves_iff (sound : graph.Sound)
    (passes : graph.Passes name key field value references set slot written key)
    (next : (graph.put name (set.move key key (slot.written field written)) groups).Sound)
    (declared : relationship ∈ set.definition.relationshipsOn field)
    (leads : Key.ofValue? written = some principal) :
    (graph.put name (set.move key key (slot.written field written)) groups).Resolves name key relationship ↔
      ∃ there, graph.row relationship.target.text principal = .ok there := by
  obtain ⟨linked, isField⟩ := List.mem_filter.1 declared
  have moved : set.Moved (set.move key key (slot.written field written)) key key (slot.written field written) :=
    (sound.tracked passes.found).moved fun moves => absurd rfl moves
  generalize set.move key key (slot.written field written) = after at next moved ⊢
  have held : after.get? key = some (slot.written field written).row :=
    EntitySet.get?_eq_some_iff.2 ⟨_, moved.arrived, rfl⟩
  have holds : (slot.written field written).row.principal? relationship = some principal := by
    simp [Row.principal?, Row.get?, Slot.written, beq_iff_eq.1 isField, leads]
  -- the written row may be its own principal: it has changed, but it is still under its key
  have reference := Graph.resolves_iff next (by rw [put_entities, if_pos rfl]) (moved.definition ▸ linked) held holds
  exact reference.trans (row_put_iff passes.found passes.held moved)

/-- The field of a relationship is not the key field, so that a write of it leaves the row under its key. -/
theorem Passes.kept (sound : graph.Sound)
    (passes : graph.Passes name key field value references set slot written target)
    (declared : relationship ∈ set.definition.relationshipsOn field) : target = key :=
  passes.stays sound ((sound.definition_valid passes.found).of_relationshipsOn declared).1

/-- What is written to the field of a required relationship is a key. -/
theorem Passes.key_of_required (sound : graph.Sound)
    (passes : graph.Passes name key field value references set slot written target)
    (declared : relationship ∈ set.definition.relationshipsOn field)
    (required : set.definition.isRequired relationship = true) :
    ∃ principal, Key.ofValue? written = some principal := by
  obtain ⟨-, owned, found, keyType⟩ := (sound.definition_valid passes.found).of_relationshipsOn declared
  obtain ⟨converted, present⟩ := Definition.coerceWrite_eq_ok_iff.1 passes.accepted
  obtain ⟨field', found', admits⟩ := Definition.holds_of_coerceField converted
  cases found.symm.trans found'
  rw [Definition.isRequired, beq_iff_eq.1 (List.mem_filter.1 declared).2] at required
  exact DataType.key_of_admits keyType admits (by simpa [required] using present)

/-- A principal that is written to the field of a relationship is written as it is. -/
theorem Passes.written_eq (sound : graph.Sound)
    (passes : graph.Passes name key field principal.toValue references set slot written target)
    (declared : relationship ∈ set.definition.relationshipsOn field) : written = principal.toValue := by
  obtain ⟨-, owned, found, keyType⟩ := (sound.definition_valid passes.found).of_relationshipsOn declared
  obtain ⟨field', found', converted⟩ :=
    Definition.coerceField_eq_ok_iff.1 (Definition.coerceWrite_eq_ok_iff.1 passes.accepted).1
  cases found.symm.trans found'
  exact DataType.eq_of_coerce? keyType converted

/-- A principal is set by a write to the field of the relationship, of which only this relationship is checked. -/
theorem setReference_eq_writeField {link : String}
    (done : (graph.setReference name key link (some principal)).1 = .ok target) :
    ∃ set through, graph.entities[name]? = some set ∧ Graph.relationship set.definition link = .ok through ∧
      graph.checkResolvable set.definition key through principal.toValue = .ok () ∧
      graph.setReference name key link (some principal) =
        graph.writeField name key through.field principal.toValue false := by
  cases referenced : graph.referenceValue name key link (some principal) with
  | error e =>
    rw [setReference, referenced] at done
    cases done
  | ok pair =>
    have same : graph.setReference name key link (some principal) =
        graph.writeField name key pair.1.field pair.2 false := by
      rw [setReference, referenced]
    obtain ⟨set, found, referenced⟩ := bind_eq_ok_iff.1 referenced
    obtain ⟨through, known, referenced⟩ := bind_eq_ok_iff.1 referenced
    obtain ⟨resolvable, referenced⟩ := check_eq_ok_iff.1 referenced
    cases referenced
    exact ⟨set, through, entity_eq_ok_iff.1 found, known, resolvable, same⟩

/-- With references checked, a field that is set leads to a row through every required relationship over it. -/
theorem Reachable.set_resolves (reachable : Reachable catalog config graph) (checks : config.checkReferences = true)
    (done : (graph.set name key field value).1 = .ok target) :
    ∃ set, graph.entities[name]? = some set ∧ ∀ relationship ∈ set.definition.relationshipsOn field,
      set.definition.isRequired relationship = true →
        (graph.set name key field value).2.Resolves name target relationship := by
  have sound := reachable.sound
  have next := (reachable.step (.set name key field value)).sound
  rcases writeField_cases sound name key field value graph.config.checkReferences with
    ⟨e, refused⟩ | ⟨set, slot, written, place, passes, moved⟩
  · rw [Graph.set, refused] at done
    cases done
  rw [Graph.set, moved] at done next ⊢
  cases done
  refine ⟨set, passes.found, fun relationship declared required => ?_⟩
  obtain ⟨principal, leads⟩ := passes.key_of_required sound declared required
  cases passes.kept sound declared
  have resolved := passes.resolved (reachable.config_eq ▸ checks)
  have there := checkRequired_eq_ok_iff.1 resolved relationship declared required
  exact (passes.resolves_iff sound next declared leads).2 (checkResolvable_eq_ok_iff.1 there principal leads)

/-- Of the relationships over its field a reference that is set looks at its own only. -/
theorem Reachable.setReference_resolves (reachable : Reachable catalog config graph) {link : String}
    (done : (graph.setReference name key link (some principal)).1 = .ok target) :
    ∃ set through, graph.entities[name]? = some set ∧ Graph.relationship set.definition link = .ok through ∧
      (graph.setReference name key link (some principal)).2.Resolves name target through ∧
      ∀ relationship ∈ set.definition.relationshipsOn through.field,
        ((graph.setReference name key link (some principal)).2.Resolves name target relationship ↔
          ∃ there, graph.row relationship.target.text principal = .ok there) := by
  have sound := reachable.sound
  have next := (reachable.step (.setReference name key link (some principal))).sound
  obtain ⟨set, through, found, known, resolvable, same⟩ := setReference_eq_writeField done
  rw [same] at done next ⊢
  rcases writeField_cases sound name key through.field principal.toValue false with
    ⟨e, refused⟩ | ⟨owner, slot, written, place, passes, moved⟩
  · rw [refused] at done
    cases done
  cases found.symm.trans passes.found
  rw [moved] at done next ⊢
  cases done
  have declared : through ∈ set.definition.relationshipsOn through.field :=
    List.mem_filter.2 ⟨mem_of_relationship known, beq_self_eq_true _⟩
  cases passes.kept sound declared
  cases passes.written_eq sound declared
  have leads := Key.ofValue?_toValue principal
  refine ⟨set, through, found, known, ?_, fun relationship shares => passes.resolves_iff sound next shares leads⟩
  exact (passes.resolves_iff sound next declared leads).2 (checkResolvable_eq_ok_iff.1 resolvable principal leads)

/-- With references checked, every required relationship over a field that is set leads to a row afterwards. A
principal that is set through a relationship is a row of the target of this relationship; another relationship
over the same field leads to a row afterwards only if its own target holds the key as well. -/
theorem Reachable.references_written (reachable : Reachable catalog config graph)
    (checks : config.checkReferences = true) :
    (∀ {name field : String} {key place : Key} {value : Value}, (graph.set name key field value).1 = .ok place →
      ∃ set, graph.entities[name]? = some set ∧ ∀ relationship ∈ set.definition.relationshipsOn field,
        set.definition.isRequired relationship = true →
          (graph.set name key field value).2.Resolves name place relationship) ∧
    ∀ {name link : String} {key principal place : Key},
      (graph.setReference name key link (some principal)).1 = .ok place →
        ∃ set through, graph.entities[name]? = some set ∧
          Graph.relationship set.definition link = .ok through ∧
          (graph.setReference name key link (some principal)).2.Resolves name place through ∧
          ∀ relationship ∈ set.definition.relationshipsOn through.field,
            ((graph.setReference name key link (some principal)).2.Resolves name place relationship ↔
              ∃ there, graph.row relationship.target.text principal = .ok there) :=
  ⟨fun done => reachable.set_resolves checks done, fun done => reachable.setReference_resolves done⟩

end EntityGraph.Graph

namespace EntityGraph.Club

def payerName : EntityName := ⟨"payer", by decide +kernel⟩

def memberName : EntityName := ⟨"member", by decide +kernel⟩

def payer : Definition where
  name := payerName
  key := "id"
  fields := [⟨"id", .integer, true, none, none⟩]
  relationships := []
  parameters := []
  readOnly := false
  description := none

def sponsor : Relationship := ⟨"sponsor", "sponsor", memberName, none⟩

def paid : Relationship := ⟨"payer", "sponsor", payerName, none⟩

def member : Definition where
  name := memberName
  key := "id"
  fields := [⟨"id", .integer, true, none, none⟩, ⟨"sponsor", .integer, true, none, none⟩]
  relationships := [sponsor, paid]
  parameters := []
  readOnly := false
  description := none

/-- Members have a sponsor among the members, who has to be among the payers as well. Both relationships are
over one required field. -/
def catalog : Catalog where
  entities := .ofList [("payer", payer), ("member", member)]
  registered _ _ found := by
    rcases List.mem_cons.1 (mem_of_getElem?_ofList found) with same | later
    · cases same
      exact ⟨rfl, by decide +kernel⟩
    · cases List.mem_singleton.1 later
      exact ⟨rfl, by decide +kernel⟩

/-- A club without members. -/
def founded : Graph where
  catalog := catalog
  config := {}
  order := saveOrder catalog.definitions
  entities := .ofList [("payer", EntitySet.empty payer), ("member", EntitySet.empty member)]
  groups := .empty
  inverses := ∅
  commands := []

def payerColumns (id : Int64) : Columns := .ofList [("id", Value.integer id)]

def memberColumns (id sponsor : Int64) : Columns :=
  .ofList [("id", Value.integer id), ("sponsor", Value.integer sponsor)]

/-- A club with a payer. -/
def opened : Graph := (founded.insert ⟨payer, 0, payerColumns 1⟩ 0).2

/-- The first member, who is its own sponsor. -/
def sponsored : Graph := (opened.insert ⟨member, 1, memberColumns 1 1⟩ 0).2

/-- Two members who are sponsored by the first. -/
def joined : Graph := (sponsored.insert ⟨member, 2, memberColumns 2 1⟩ 0).2

theorem joined_reachable : Graph.Reachable catalog {} joined := by
  have built : Graph.ofCatalog catalog {} = .ok founded ∧
      founded.buildRow "payer" 0 (payerColumns 1) = .ok ⟨payer, 0, payerColumns 1⟩ ∧
      opened.buildRow "member" 1 (memberColumns 1 1) = .ok ⟨member, 1, memberColumns 1 1⟩ ∧
      sponsored.buildRow "member" 2 (memberColumns 2 1) = .ok ⟨member, 2, memberColumns 2 1⟩ := by decide +kernel
  obtain ⟨start, first, second, third⟩ := built
  exact .step (.step (.step (.start start) (.insert 0 (.ofColumns first))) (.insert 0 (.ofColumns second)))
    (.insert 0 (.ofColumns third))

/-- The second member sponsors itself, though it is not among the payers. -/
theorem sponsored_unresolved : Graph.Reachable catalog {} joined ∧
    ({} : GraphConfig).checkReferences = true ∧
    (joined.setReference "member" (.integer 2) "sponsor" (some (.integer 2))).1 = .ok (.integer 2) ∧
    paid ∈ member.relationshipsOn "sponsor" ∧ member.isRequired paid = true ∧
    (joined.setReference "member" (.integer 2) "sponsor" (some (.integer 2))).2.referenceOf "member" (.integer 2)
      "payer" = .error (.unresolvedReference "member" "2" "payer" "payer" "2") := by
  have evaluated : (joined.setReference "member" (.integer 2) "sponsor" (some (.integer 2))).1 = .ok (.integer 2) ∧
      paid ∈ member.relationshipsOn "sponsor" ∧ member.isRequired paid = true ∧
      (joined.setReference "member" (.integer 2) "sponsor" (some (.integer 2))).2.referenceOf "member" (.integer 2)
        "payer" = .error (.unresolvedReference "member" "2" "payer" "payer" "2") := by decide +kernel
  exact ⟨joined_reachable, rfl, evaluated⟩

theorem member_of_found {set : EntitySet} (found : joined.entities["member"]? = some set) :
    set.definition = member := by
  have registered := joined_reachable.sound.definition found
  rw [joined_reachable.catalog_eq] at registered
  exact Option.some.inj (registered.symm.trans rfl)

theorem joined_references_written :
    (joined.set "member" (.integer 2) "sponsor" (.integer 1)).1 = .ok (.integer 2) ∧
    (∀ relationship ∈ member.relationships,
      (joined.set "member" (.integer 2) "sponsor" (.integer 1)).2.Resolves "member" (.integer 2) relationship) ∧
    (joined.setReference "member" (.integer 2) "sponsor" (some (.integer 2))).1 = .ok (.integer 2) ∧
    (joined.setReference "member" (.integer 2) "sponsor" (some (.integer 2))).2.Resolves "member" (.integer 2)
      sponsor ∧
    ¬(joined.setReference "member" (.integer 2) "sponsor" (some (.integer 2))).2.Resolves "member" (.integer 2)
      paid := by
  have evaluated : (joined.set "member" (.integer 2) "sponsor" (.integer 1)).1 = .ok (.integer 2) ∧
      (joined.setReference "member" (.integer 2) "sponsor" (some (.integer 2))).1 = .ok (.integer 2) ∧
      joined.row "payer" (.integer 2) = .error (.rowNotFound "payer" "2") ∧
      (∀ relationship ∈ member.relationships, relationship ∈ member.relationshipsOn "sponsor" ∧
        member.isRequired relationship = true) ∧
      Graph.relationship member "sponsor" = .ok sponsor := by decide +kernel
  obtain ⟨written, referred, absent, shared, known⟩ := evaluated
  obtain ⟨bySet, byReference⟩ := Graph.Reachable.references_written joined_reachable rfl
  refine ⟨written, fun relationship declared => ?_, referred, ?_⟩
  · obtain ⟨set, found, resolved⟩ := bySet written
    rw [member_of_found found] at resolved
    obtain ⟨shares, required⟩ := shared relationship declared
    exact resolved relationship shares required
  · obtain ⟨set, through, found, named, resolved, others⟩ := byReference referred
    rw [member_of_found found] at named others
    cases named.symm.trans known
    refine ⟨resolved, fun leads => ?_⟩
    obtain ⟨there, held⟩ := (others paid (shared paid (by simp [member])).1).1 leads
    cases absent.symm.trans held

end EntityGraph.Club
