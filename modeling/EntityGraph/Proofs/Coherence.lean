import EntityGraph.Proofs.Enrollment
import EntityGraph.Proofs.Reachability
import Mathlib.Data.List.Nodup

/-! # Coherence of groups

In every reachable graph the groups of dependents are what the rows of the identity maps say: a key is
a member exactly while the row under it refers to the principal, and no group is empty. -/
namespace EntityGraph

namespace EntitySet
variable {set set' : EntitySet} {groups groups' : Groups} {key target : Key}

/-- The row under a key refers to a principal. -/
def Refers (set : EntitySet) (link : Link) (principal key : Key) : Prop :=
  ∃ row, set.get? key = some row ∧ (link, principal) ∈ Groups.principals set.definition row.columns

/-- The groups of an entity are those of its rows. -/
def Grouped (set : EntitySet) (groups : Groups) : Prop :=
  ∀ ⦃link : Link⦄ ⦃principal key : Key⦄, link.entity = set.definition.name.text →
    (groups.Member link principal key ↔ set.Refers link principal key)

theorem member_ungroup {link : Link} {principal member : Key} :
    (set.ungroup groups key).Member link principal member ↔
      groups.Member link principal member ∧ ¬(member = key ∧ set.Refers link principal key) := by
  unfold ungroup Refers
  cases set.get? key with
  | none => simp
  | some row => simp [Groups.member_unindexRow]

theorem inhabited_ungroup (h : groups.Inhabited) : (set.ungroup groups key).Inhabited := by
  unfold ungroup
  split
  · exact h.unindexRow
  · exact h

/-- The row under a key left. -/
theorem Grouped.left (h : set.Grouped groups) (same : set'.definition = set.definition)
    (rows : ∀ other, set'.get? other = if other = key then none else set.get? other) :
    set'.Grouped (set.ungroup groups key) := by
  intro link principal member owned
  rw [same] at owned
  rw [member_ungroup, h owned]
  unfold Refers
  rw [rows, same]
  by_cases hm : member = key
  · subst hm
    simp
  · simp [hm]

/-- The row under a key left, and a row arrived under a key that is then free. -/
theorem Grouped.seated (h : set.Grouped groups) (row : Row) (same : set'.definition = set.definition)
    (free : target ≠ key → set.get? target = none)
    (rows : ∀ other, set'.get? other =
      if other = target then some row else if other = key then none else set.get? other) :
    set'.Grouped ((set.ungroup groups key).indexRow set.definition target row.columns) := by
  intro link principal member owned
  rw [same] at owned
  rw [Groups.member_indexRow, member_ungroup, h owned]
  unfold Refers
  rw [rows, same]
  by_cases ht : member = target
  · subst ht
    by_cases hk : member = key
    · subst hk
      simp only [if_true, Option.some.injEq, exists_eq_left', true_and, and_not_self, false_or]
    · simp [hk, free hk]
  · by_cases hk : member = key
    · subst hk
      simp [ht]
    · simp [ht, hk]

theorem refers_acceptChanges {link : Link} {principal : Key} :
    set.acceptChanges.Refers link principal key ↔ set.Refers link principal key := by
  simp only [Refers, get?_acceptChanges]
  rfl

theorem RowEvent.grouped (event : set.RowEvent loading groups set' groups') (h : set.Grouped groups) :
    set'.Grouped groups' := by
  have same := event.definition
  cases event with
  | @place key row =>
    refine h.seated row same (fun moves => absurd rfl moves) fun other => ?_
    simp only [get?, insert_rows]
    grind
  | @take key slot _ found =>
    refine h.left same fun other => ?_
    simp only [get?, take_rows]
    grind
  | @move key target slot row _ found _ _ free =>
    refine h.seated row same (fun moves => get?_eq_none_iff.2 (free moves).1) fun other => ?_
    simp only [get?, move_rows]
    grind
  | @load key row _ absent =>
    refine h.seated row same (fun moves => absurd rfl moves) fun other => ?_
    simp only [get?, EntitySet.load]
    grind
  | @refresh key slot columns _ found =>
    refine h.seated { slot.row with columns } same (by simp) fun other => ?_
    simp only [get?, EntitySet.refresh, found]
    grind
  | @evict key slot _ found =>
    refine h.left same fun other => ?_
    simp only [get?, EntitySet.evict]
    grind
  | markLoaded => exact h
  | accept =>
    intro link principal member owned
    rw [h owned, refers_acceptChanges]

/-- An event of one entity leaves the groups of the others as they are. -/
theorem RowEvent.member_other (event : set.RowEvent loading groups set' groups') {link : Link}
    {principal member : Key} (foreign : link.entity ≠ set.definition.name.text) :
    groups'.Member link principal member ↔ groups.Member link principal member := by
  have unlisted : ∀ {columns : Columns}, (link, principal) ∉ Groups.principals set.definition columns := by
    intro columns listed
    obtain ⟨relationship, -, rfl, -⟩ := Groups.mem_principals_iff.1 listed
    exact foreign rfl
  cases event <;> simp [member_ungroup, Groups.member_indexRow, Refers, unlisted]

theorem RowEvent.inhabited (event : set.RowEvent loading groups set' groups') (h : groups.Inhabited) :
    groups'.Inhabited := by
  cases event with
  | place | move | load | refresh => exact Groups.Inhabited.indexRow (inhabited_ungroup h)
  | take | evict => exact inhabited_ungroup h
  | markLoaded | accept => exact h

end EntitySet

namespace Graph
variable {graph next : Graph}

/-- The groups of a graph are those of its rows, and none is empty. -/
structure Coherent (graph : Graph) : Prop where
  inhabited : graph.groups.Inhabited
  member : ∀ {link : Link} {principal key : Key}, graph.groups.Member link principal key ↔
    ∃ set, graph.entities[link.entity]? = some set ∧ set.Refers link principal key

theorem ofCatalog_coherent {catalog : Catalog} {config : GraphConfig}
    (h : Graph.ofCatalog catalog config = .ok graph) : graph.Coherent := by
  obtain ⟨valid, h⟩ := check_eq_ok_iff.1 h
  cases h
  constructor
  · intro link principal keys found
    simp [Groups.of, Groups.empty] at found
  · intro link principal key
    refine ⟨fun member => absurd member Groups.not_member_empty, ?_⟩
    rintro ⟨set, found, row, hrow, -⟩
    rw [Std.ExtTreeMap.getElem?_map, Option.map_eq_some_iff] at found
    obtain ⟨definition, -, rfl⟩ := found
    simp [EntitySet.get?, EntitySet.empty] at hrow

theorem Coherent.grouped (h : graph.Coherent) (sound : graph.Sound) {name : String} {set : EntitySet}
    (found : graph.entities[name]? = some set) : set.Grouped graph.groups := by
  intro link principal key owned
  rw [sound.name_eq found] at owned
  rw [h.member, owned, found]
  simp

theorem Event.coherent (event : Event loading graph next) (sound : graph.Sound) (h : graph.Coherent) :
    next.Coherent := by
  cases event with
  | @row name set set' groups found event =>
    refine ⟨event.inhabited h.inhabited, fun {link principal key} => ?_⟩
    rw [put_entities]
    by_cases same : name = link.entity
    · have owned : link.entity = set'.definition.name.text := by
        rw [event.definition, sound.name_eq found, same]
      have grouped : groups.Member link principal key ↔ _ :=
        event.grouped (h.grouped sound found) owned
      simpa [same, put] using grouped
    · have foreign : link.entity ≠ set.definition.name.text := by
        rw [sound.name_eq found]
        exact Ne.symm same
      rw [if_neg same]
      exact (event.member_other foreign).trans h.member
  | queue => exact ⟨h.inhabited, h.member⟩
  | dropChanges =>
    refine ⟨h.inhabited, fun {link principal key} => ?_⟩
    refine h.member.trans ?_
    rw [dropChanges_entities]
    cases found : graph.entities[link.entity]? with
    | none => simp
    | some set => simp [EntitySet.refers_acceptChanges]

theorem Reachable.coherent {catalog : Catalog} {config : GraphConfig}
    (reachable : Reachable catalog config graph) : graph.Coherent :=
  reachable.invariant Coherent ofCatalog_coherent Event.coherent

/-- In every reachable graph the members of a group are the rows that refer to its principal, and a
group is kept only while it has members. -/
theorem Reachable.groups_exact {catalog : Catalog} {config : GraphConfig}
    (reachable : Reachable catalog config graph) :
    (∀ {name : String} {definition : Definition}, catalog.entities[name]? = some definition →
      ∃ set, graph.entities[name]? = some set ∧ set.definition = definition ∧
        ∀ relationship ∈ definition.relationships, ∀ principal key : Key,
          key ∈ graph.groups.members name relationship.name principal ↔
            ∃ row, set.get? key = some row ∧
              (row.get? relationship.field).bind Key.ofValue? = some principal) ∧
    (∀ {link : Link} {principal : Key} {keys : Std.ExtTreeSet Key},
      (graph.groups.of link)[principal]? = some keys →
        keys ≠ ∅ ∧ ∃ definition, catalog.entities[link.entity]? = some definition ∧
          ∃ relationship ∈ definition.relationships, relationship.name = link.relationship) := by
  have sound := reachable.sound
  have coherent := reachable.coherent
  rw [← reachable.catalog_eq]
  constructor
  · intro name definition registered
    rw [← sound.definitions, Option.map_eq_some_iff] at registered
    obtain ⟨set, found, rfl⟩ := registered
    refine ⟨set, found, rfl, fun relationship declared principal key => ?_⟩
    rw [Groups.mem_members_iff, coherent.member, found]
    simp only [Option.some.injEq, exists_eq_left', EntitySet.Refers]
    refine exists_congr fun row => and_congr_right fun _ => ?_
    rw [Groups.mem_principals_iff, sound.name_eq found]
    constructor
    · rintro ⟨other, listed, same, leads⟩
      have names := (sound.definition_valid found).names
      have same : other = relationship :=
        List.inj_on_of_nodup_map names listed declared (by simpa using Eq.symm same)
      rwa [same] at leads
    · exact fun leads => ⟨relationship, declared, rfl, leads⟩
  · intro link principal keys kept
    have filled := coherent.inhabited kept
    refine ⟨filled, ?_⟩
    obtain ⟨key, member⟩ : ∃ key, key ∈ keys := by
      by_contra unfilled
      exact filled (Std.ExtTreeSet.eq_empty_iff_forall_not_mem.2 (not_exists.1 unfilled))
    obtain ⟨set, found, row, -, listed⟩ := coherent.member.1 ⟨keys, kept, member⟩
    obtain ⟨relationship, declared, same, -⟩ := Groups.mem_principals_iff.1 listed
    exact ⟨set.definition, sound.definition found, relationship, declared, by rw [same]⟩

end Graph

theorem Forest.looped_groups_exact :
    ∃ set, Forest.looped.entities["node"]? = some set ∧ set.definition = Forest.node ∧
      ∀ relationship ∈ Forest.node.relationships, ∀ principal key : Key,
        key ∈ Forest.looped.groups.members "node" relationship.name principal ↔
          ∃ row, set.get? key = some row ∧
            (row.get? relationship.field).bind Key.ofValue? = some principal :=
  (Graph.Reachable.groups_exact Forest.looped_reachable).1 (by decide +kernel)

example : Forest.looped.groups.members "node" "up" (.integer 1) = [.integer 1] := by decide +kernel

end EntityGraph
