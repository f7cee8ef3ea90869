import EntityGraph.Catalog
import EntityGraph.Proofs.Outcomes
import EntityGraph.SaveOrder
import Mathlib.Data.Finset.Card
import Mathlib.Data.Finset.Max
import Mathlib.Order.WellFoundedSet

/-! # The save order

Placing ready entities by counting the principals that they wait for follows a schedule: the next entity
is always the least of those whose principals are placed. From this the save order lists every entity
once, and without reference cycles no entity comes before one of its principals. -/
namespace EntityGraph

/-- In a nonempty finite set on which a relation has no cycle, something is related to nothing in it. -/
theorem exists_minimal_of_acyclic {α : Type} {s : Finset α} {r : α → α → Prop}
    (acyclic : ∀ a, ¬Relation.TransGen r a a) (nonempty : s.Nonempty) : ∃ a ∈ s, ∀ b ∈ s, ¬r a b := by
  let above : α → α → Prop := fun b a => Relation.TransGen r a b
  have : IsStrictOrder α above :=
    { irrefl := acyclic
      trans := fun a b c hab hbc => hbc.trans hab }
  have founded : (s : Set α).WellFoundedOn above := s.finite_toSet.wellFoundedOn
  obtain ⟨first, hfirst⟩ := nonempty
  obtain ⟨⟨a, ha⟩, -, least⟩ := WellFounded.has_min founded Set.univ ⟨⟨first, hfirst⟩, trivial⟩
  exact ⟨a, ha, fun b hb related => least ⟨b, hb⟩ trivial (.single related)⟩

namespace SaveOrder

/-- Names in an order of placing after others have been placed, until no further name is ready. -/
inductive Schedule (needs : String → Finset String) (listed : Finset String) :
    Finset String → List String → Prop
  | stuck {placed : Finset String} :
      (∀ name ∈ listed, name ∉ placed → ¬needs name ⊆ placed) → Schedule needs listed placed []
  | next {placed : Finset String} {name : String} {order : List String} (member : name ∈ listed)
      (unplaced : name ∉ placed) (ready : needs name ⊆ placed)
      (least : ∀ other ∈ listed, other ∉ placed → needs other ⊆ placed → (compare name other).isLE = true)
      (rest : Schedule needs listed (insert name placed) order) : Schedule needs listed placed (name :: order)

section Schedule
variable {needs : String → Finset String} {listed placed : Finset String} {order : List String}

theorem Schedule.mem
    (h : Schedule needs listed placed order) : ∀ name ∈ order, name ∈ listed ∧ name ∉ placed := by
  induction h with
  | stuck => simp
  | next member unplaced _ _ _ ih =>
    rintro other (_ | ⟨_, later⟩)
    · exact ⟨member, unplaced⟩
    · exact ⟨(ih other later).1, fun found => (ih other later).2 (Finset.mem_insert_of_mem found)⟩

theorem Schedule.nodup (h : Schedule needs listed placed order) : order.Nodup := by
  induction h with
  | stuck => exact List.nodup_nil
  | next _ _ _ _ rest ih =>
    exact List.nodup_cons.2 ⟨fun later => (rest.mem _ later).2 (Finset.mem_insert_self ..), ih⟩

/-- No name needs one that is placed later. -/
theorem Schedule.pairwise (h : Schedule needs listed placed order) :
    order.Pairwise fun early late => late ∉ needs early := by
  induction h with
  | stuck => exact .nil
  | next _ _ ready _ rest ih =>
    refine List.pairwise_cons.2 ⟨fun late later needed => ?_, ih⟩
    exact (rest.mem _ later).2 (Finset.mem_insert_of_mem (ready needed))

/-- Every name that is left over needs another one that is left over. -/
theorem Schedule.left_over (h : Schedule needs listed placed order) :
    ∀ name ∈ listed, name ∉ placed → name ∉ order →
      ∃ other ∈ needs name, other ∉ placed ∧ other ∉ order := by
  induction h with
  | stuck blocked =>
    intro name member unplaced _
    obtain ⟨other, needed, missing⟩ := Finset.not_subset.1 (blocked name member unplaced)
    exact ⟨other, needed, missing, List.not_mem_nil⟩
  | @next placed first order _ _ _ _ _ ih =>
    intro name member unplaced unlisted
    rw [List.mem_cons, not_or] at unlisted
    obtain ⟨other, needed, missing, absent⟩ :=
      ih name member (by simp [unlisted.1, unplaced]) unlisted.2
    rw [Finset.mem_insert, not_or] at missing
    exact ⟨other, needed, missing.2, by simp [missing.1, absent]⟩

/-- Without cycles everything is placed. -/
theorem Schedule.complete (h : Schedule needs listed ∅ order)
    (within : ∀ name ∈ listed, needs name ⊆ listed)
    (acyclic : ∀ name, ¬Relation.TransGen (fun a b => a ∈ listed ∧ b ∈ needs a) name name) :
    ∀ name ∈ listed, name ∈ order := by
  by_contra incomplete
  push Not at incomplete
  obtain ⟨name, member, absent⟩ := incomplete
  let left := listed.filter (· ∉ order)
  have nonempty : left.Nonempty := ⟨name, by simp [left, member, absent]⟩
  obtain ⟨last, hlast, minimal⟩ := exists_minimal_of_acyclic acyclic nonempty
  rw [Finset.mem_filter] at hlast
  obtain ⟨other, needed, -, missing⟩ := h.left_over last hlast.1 (Finset.notMem_empty _) hlast.2
  exact minimal other (Finset.mem_filter.2 ⟨within last hlast.1 needed, missing⟩) ⟨hlast.1, needed⟩

end Schedule

section Loop
variable {needs : String → Finset String} {listed placed : Finset String}
  {dependents : String → Std.ExtTreeSet String} {state : State} {name : String}

theorem getElem?_waiting_release {dependent : String} : (state.release dependent).waiting[name]? =
    if name = dependent then state.waiting[name]?.map (· - 1) else state.waiting[name]? := by
  unfold State.release
  grind

theorem mem_ready_release {dependent : String} : name ∈ (state.release dependent).ready ↔
    name ∈ state.ready ∨ name = dependent ∧ ∃ count, state.waiting[name]? = some count ∧ count - 1 = 0 := by
  unfold State.release
  cases waits : state.waiting[dependent]? <;> grind

theorem foldl_release (names : List String) (distinct : names.Nodup) (state : State) :
    (∀ name : String, (names.foldl State.release state).waiting[name]? =
      if name ∈ names then state.waiting[name]?.map (· - 1) else state.waiting[name]?) ∧
    (∀ name : String, name ∈ (names.foldl State.release state).ready ↔
      name ∈ state.ready ∨ name ∈ names ∧ ∃ count, state.waiting[name]? = some count ∧ count - 1 = 0) := by
  induction names generalizing state with
  | nil => simp
  | cons first names ih =>
    obtain ⟨fresh, distinct⟩ := List.nodup_cons.1 distinct
    obtain ⟨hw, hr⟩ := ih distinct (state.release first)
    constructor
    · intro name
      rw [List.foldl_cons, hw, getElem?_waiting_release]
      grind
    · intro name
      rw [List.foldl_cons, hr, getElem?_waiting_release, mem_ready_release]
      grind

/-- Every name that is not placed waits for its needs, and those that wait for none are ready. -/
structure Placing (needs : String → Finset String) (listed placed : Finset String) (state : State) : Prop where
  closed : ∀ name ∈ placed, needs name ⊆ placed
  waiting : ∀ name : String, state.waiting[name]? =
    if name ∈ listed then some (needs name \ placed).card else none
  ready : ∀ name, name ∈ state.ready ↔ name ∈ listed ∧ name ∉ placed ∧ needs name ⊆ placed

theorem Placing.next (h : Placing needs listed placed state) (irreflexive : ∀ name, name ∉ needs name)
    (hdependents : ∀ name other, other ∈ dependents name ↔ other ∈ listed ∧ name ∈ needs other)
    (ready : name ∈ state.ready) :
    Placing needs listed (insert name placed)
      ((dependents name).toList.foldl State.release { state with ready := state.ready.erase name }) := by
  obtain ⟨member, unplaced, met⟩ := (h.ready name).1 ready
  obtain ⟨hw, hr⟩ := foldl_release _ (toList_nodup (dependents name)) { state with ready := state.ready.erase name }
  have needed : ∀ other, name ∈ needs other → name ∈ needs other \ placed := fun other hn =>
    Finset.mem_sdiff.2 ⟨hn, unplaced⟩
  constructor
  · intro other found
    rw [Finset.mem_insert] at found
    rcases found with rfl | found
    · exact met.trans (Finset.subset_insert ..)
    · exact (h.closed other found).trans (Finset.subset_insert ..)
  · intro other
    simp only [hw, h.waiting, Std.ExtTreeSet.mem_toList, hdependents, Finset.sdiff_insert]
    by_cases hn : name ∈ needs other
    · by_cases hl : other ∈ listed
      · simp [hl, hn, Finset.card_erase_of_mem (needed other hn)]
      · simp [hl]
    · have unneeded : name ∉ needs other \ placed := fun found => hn (Finset.mem_sdiff.1 found).1
      simp [hn, unneeded]
  · intro other
    simp only [hr, h.waiting, Std.ExtTreeSet.mem_toList, hdependents, Std.ExtTreeSet.mem_erase,
      h.ready, Finset.mem_insert, not_or]
    have emptied : name ∈ needs other →
        ((needs other \ placed).card - 1 = 0 ↔ needs other ⊆ insert name placed) := by
      intro hn
      rw [← Finset.card_erase_of_mem (needed other hn), Finset.card_eq_zero, ← Finset.sdiff_insert,
        Finset.sdiff_eq_empty_iff_subset]
    have later : name ∈ needs other → other ≠ name ∧ other ∉ placed := by
      intro hn
      refine ⟨?_, fun found => unplaced (h.closed other found hn)⟩
      rintro rfl
      exact irreflexive _ hn
    have unneeded : name ∉ needs other → (needs other ⊆ insert name placed ↔ needs other ⊆ placed) :=
      Finset.subset_insert_iff_of_notMem
    by_cases hl : other ∈ listed
    · by_cases hn : name ∈ needs other
      · have blocked : ¬needs other ⊆ placed := fun met => unplaced (met hn)
        simp [hl, hn, emptied hn, later hn, blocked]
      · have differ : compare name other ≠ .eq ↔ other ≠ name := by
          rw [ne_eq, Std.compare_eq_iff_eq, ne_comm]
        simp only [hl, hn, unneeded hn, differ, true_and, false_and, or_false]
        tauto
    · simp [hl]

/-- The counting loop follows a schedule. -/
theorem place_schedule (irreflexive : ∀ name, name ∉ needs name)
    (hdependents : ∀ name other, other ∈ dependents name ↔ other ∈ listed ∧ name ∈ needs other)
    (h : Placing needs listed placed state) {fuel : Nat} (enough : (listed \ placed).card ≤ fuel) :
    Schedule needs listed placed (place dependents fuel state) := by
  induction fuel generalizing placed state with
  | zero =>
    refine .stuck fun name member unplaced => ?_
    have all : listed ⊆ placed := by
      rw [← Finset.sdiff_eq_empty_iff_subset, ← Finset.card_eq_zero]
      omega
    exact absurd (all member) unplaced
  | succ fuel ih =>
    unfold place
    split
    · next none =>
      refine .stuck fun name member unplaced met => ?_
      have ready := (h.ready name).2 ⟨member, unplaced, met⟩
      rw [← Std.ExtTreeSet.mem_toList, none] at ready
      cases ready
    · next name rest first =>
      have ready : name ∈ state.ready := by
        rw [← Std.ExtTreeSet.mem_toList, first]
        exact List.mem_cons_self
      obtain ⟨member, unplaced, met⟩ := (h.ready name).1 ready
      refine .next member unplaced met (fun other hl hu hm => ?_) (ih (h.next irreflexive hdependents ready) ?_)
      · have ordered := Std.ExtTreeSet.ordered_toList (t := state.ready)
        have listed := (h.ready other).2 ⟨hl, hu, hm⟩
        rw [← Std.ExtTreeSet.mem_toList, first] at listed
        rw [first, List.pairwise_cons] at ordered
        rcases List.mem_cons.1 listed with rfl | later
        · simp
        · simp [ordered.1 other later]
      · have smaller : (listed \ insert name placed).card = (listed \ placed).card - 1 := by
          rw [Finset.sdiff_insert, Finset.card_erase_of_mem (Finset.mem_sdiff.2 ⟨member, unplaced⟩)]
        omega

end Loop

section Definitions
variable {definitions : List Definition} {definition : Definition} {name other : String}

theorem getElem?_byName (distinct : (definitions.map fun d => d.name.text).Nodup) :
    (byName definitions)[name]? = some definition ↔
      definition ∈ definitions ∧ definition.name.text = name := by
  constructor
  · intro found
    have member := mem_of_getElem?_ofList found
    simp only [List.mem_map, Prod.mk.injEq] at member
    obtain ⟨listed, member, rfl, rfl⟩ := member
    exact ⟨member, rfl⟩
  · rintro ⟨member, rfl⟩
    refine Std.ExtTreeMap.getElem?_ofList_of_mem (k := definition.name.text) (by simp) ?_
      (List.mem_map.2 ⟨definition, member, rfl⟩)
    rw [List.pairwise_map]
    rw [List.nodup_iff_pairwise_ne, List.pairwise_map] at distinct
    exact distinct.imp fun differ same => differ (Std.compare_eq_iff_eq.1 same)

theorem mem_byName (distinct : (definitions.map fun d => d.name.text).Nodup) :
    name ∈ byName definitions ↔ ∃ definition ∈ definitions, definition.name.text = name := by
  rw [mem_iff_exists_getElem?]
  simp only [getElem?_byName distinct]

theorem mem_principals {listed : Std.ExtTreeMap String Definition} :
    other ∈ principals listed definition ↔
      (∃ relationship ∈ definition.relationships, relationship.target.text = other) ∧
        other ≠ definition.name.text ∧ other ∈ listed := by
  simp [principals, Std.ExtTreeSet.mem_ofList]

/-- The other listed names to which the definition of a name refers. -/
def needs (definitions : List Definition) (name : String) : Finset String :=
  match (byName definitions)[name]? with
  | none => ∅
  | some definition => (principals (byName definitions) definition).toList.toFinset

def listed (definitions : List Definition) : Finset String := (byName definitions).keys.toFinset

theorem mem_listed : name ∈ listed definitions ↔ name ∈ byName definitions := by
  simp [listed]

theorem mem_listed_iff (distinct : (definitions.map fun d => d.name.text).Nodup) :
    name ∈ listed definitions ↔ ∃ definition ∈ definitions, definition.name.text = name :=
  mem_listed.trans (mem_byName distinct)

theorem needs_eq (found : (byName definitions)[name]? = some definition) :
    needs definitions name = (principals (byName definitions) definition).toList.toFinset := by
  simp [needs, found]

theorem mem_needs : other ∈ needs definitions name ↔
    ∃ definition, (byName definitions)[name]? = some definition ∧
      other ∈ principals (byName definitions) definition := by
  unfold needs
  cases (byName definitions)[name]? <;> simp

/-- No entity waits for itself. -/
theorem notMem_needs (distinct : (definitions.map fun d => d.name.text).Nodup) (name : String) :
    name ∉ needs definitions name := by
  intro needed
  obtain ⟨definition, found, needed⟩ := mem_needs.1 needed
  exact (mem_principals.1 needed).2.1 ((getElem?_byName distinct).1 found).2.symm

theorem mem_dependents (distinct : (definitions.map fun d => d.name.text).Nodup) :
    other ∈ dependents (byName definitions) definitions name ↔
      other ∈ listed definitions ∧ name ∈ needs definitions other := by
  rw [mem_listed_iff distinct, mem_needs]
  simp only [dependents, Std.ExtTreeSet.mem_ofList, List.contains_iff_mem, List.mem_map, List.mem_filter,
    Std.ExtTreeSet.contains_iff_mem, getElem?_byName distinct]
  constructor
  · rintro ⟨definition, ⟨member, needed⟩, rfl⟩
    exact ⟨⟨definition, member, rfl⟩, definition, ⟨member, rfl⟩, needed⟩
  · rintro ⟨-, definition, ⟨member, rfl⟩, needed⟩
    exact ⟨definition, ⟨member, needed⟩, rfl⟩

theorem filter_name (distinct : (definitions.map fun d => d.name.text).Nodup)
    (member : definition ∈ definitions) :
    definitions.filter (fun other => other.name.text == definition.name.text) = [definition] := by
  induction definitions with
  | nil => cases member
  | cons first definitions ih =>
    rw [List.map_cons, List.nodup_cons] at distinct
    rcases List.mem_cons.1 member with rfl | later
    · have others : definitions.filter (fun other => other.name.text == definition.name.text) = [] := by
        refine List.filter_eq_nil_iff.2 fun other listed same => distinct.1 ?_
        exact List.mem_map.2 ⟨other, listed, by simpa using same⟩
      simp [others]
    · have differs : first.name.text ≠ definition.name.text := fun same =>
        distinct.1 (same ▸ List.mem_map.2 ⟨definition, later, rfl⟩)
      simp [differs, ih distinct.2 later]

theorem waiting_eq (distinct : (definitions.map fun d => d.name.text).Nodup) :
    (waiting (byName definitions) definitions)[name]? =
      if name ∈ listed definitions then some (needs definitions name).card else none := by
  unfold waiting
  simp only [Std.ExtTreeMap.getElem?_map, mem_listed]
  cases found : (byName definitions)[name]? with
  | none => simp_all
  | some definition =>
    obtain ⟨member, rfl⟩ := (getElem?_byName distinct).1 found
    have present : definition.name.text ∈ byName definitions := mem_iff_exists_getElem?.2 ⟨_, found⟩
    rw [needs_eq found, List.toFinset_card_of_nodup (toList_nodup _), filter_name distinct member]
    simp [present]

theorem placing_start (distinct : (definitions.map fun d => d.name.text).Nodup) :
    Placing (needs definitions) (listed definitions) ∅
      ⟨waiting (byName definitions) definitions,
        .ofList (((waiting (byName definitions) definitions).toList.filter fun entry => entry.2 == 0).map
          Prod.fst)⟩ where
  closed := by simp
  waiting name := by simp [waiting_eq distinct]
  ready name := by
    simp only [Std.ExtTreeSet.mem_ofList, List.contains_iff_mem, List.mem_map, List.mem_filter, Prod.exists,
      Std.ExtTreeMap.mem_toList_iff_getElem?_eq_some, waiting_eq distinct, beq_iff_eq,
      Finset.notMem_empty, not_false_eq_true, true_and, Finset.subset_empty]
    by_cases hl : name ∈ listed definitions
    · simp [hl]
    · simp [hl]

/-- The names follow a schedule as far as it goes, and the left over ones come in name order. -/
theorem names_schedule (distinct : (definitions.map fun d => d.name.text).Nodup) :
    ∃ placed, Schedule (needs definitions) (listed definitions) ∅ placed ∧
      names definitions = placed ++ (byName definitions).keys.filter fun name => !placed.contains name := by
  refine ⟨_, place_schedule (notMem_needs distinct) (fun _ _ => mem_dependents distinct)
    (placing_start distinct) ?_, rfl⟩
  rw [Finset.sdiff_empty, listed]
  exact (List.toFinset_card_le _).trans (by simp)

theorem names_perm (distinct : (definitions.map fun d => d.name.text).Nodup) :
    (names definitions).Perm (byName definitions).keys := by
  obtain ⟨placed, schedule, split⟩ := names_schedule distinct
  have keys := (byName definitions).nodup_keys
  rw [split, List.perm_ext_iff_of_nodup ?_ keys]
  · intro name
    have within : name ∈ placed → name ∈ (byName definitions).keys := fun found => by
      simpa [listed] using (schedule.mem name found).1
    by_cases found : name ∈ placed
    · simp [found, within found]
    · simp [found]
  · refine List.Nodup.append schedule.nodup (keys.filter _) fun name found left => ?_
    simp_all

theorem map_name_saveOrder (distinct : (definitions.map fun d => d.name.text).Nodup) :
    (saveOrder definitions).map (fun d => d.name.text) = names definitions := by
  have known : ∀ name ∈ names definitions, ∃ definition, (byName definitions)[name]? = some definition ∧
      definition.name.text = name := by
    intro name listed
    rw [(names_perm distinct).mem_iff, Std.ExtTreeMap.mem_keys, mem_byName distinct] at listed
    obtain ⟨definition, member, named⟩ := listed
    exact ⟨definition, (getElem?_byName distinct).2 ⟨member, named⟩, named⟩
  unfold saveOrder
  revert known
  generalize names definitions = all
  intro known
  induction all with
  | nil => rfl
  | cons name names ih =>
    obtain ⟨definition, found, named⟩ := known name (by simp)
    rw [List.filterMap_cons, found]
    exact congrArg₂ List.cons named (ih fun other later => known other (by simp [later]))

theorem mem_saveOrder (distinct : (definitions.map fun d => d.name.text).Nodup) :
    definition ∈ saveOrder definitions ↔ definition ∈ definitions := by
  simp only [saveOrder, List.mem_filterMap, (names_perm distinct).mem_iff, Std.ExtTreeMap.mem_keys,
    mem_byName distinct, getElem?_byName distinct]
  constructor
  · rintro ⟨name, -, member, -⟩
    exact member
  · exact fun member => ⟨_, ⟨definition, member, rfl⟩, member, rfl⟩

theorem saveOrder_nodup (distinct : (definitions.map fun d => d.name.text).Nodup) :
    ((saveOrder definitions).map fun d => d.name.text).Nodup := by
  rw [map_name_saveOrder distinct, (names_perm distinct).nodup_iff]
  exact Std.ExtTreeMap.nodup_keys

/-- One definition refers to another one. -/
def Refers (definitions : List Definition) (name other : String) : Prop :=
  ∃ definition ∈ definitions, definition.name.text = name ∧ other ≠ name ∧
    ∃ relationship ∈ definition.relationships, relationship.target.text = other

/-- Without reference cycles no definition refers to a later one. -/
theorem saveOrder_pairwise (distinct : (definitions.map fun d => d.name.text).Nodup)
    (acyclic : ∀ name, ¬Relation.TransGen (Refers definitions) name name) :
    (saveOrder definitions).Pairwise fun early late =>
      ∀ relationship ∈ early.relationships, relationship.target.text ≠ late.name.text := by
  obtain ⟨placed, schedule, split⟩ := names_schedule distinct
  have refers : ∀ {name other}, other ∈ needs definitions name → Refers definitions name other := by
    intro name other needed
    obtain ⟨definition, found, principal⟩ := mem_needs.1 needed
    obtain ⟨member, rfl⟩ := (getElem?_byName distinct).1 found
    obtain ⟨declared, differs, -⟩ := mem_principals.1 principal
    exact ⟨definition, member, rfl, differs, declared⟩
  have complete := schedule.complete
    (fun name _ other needed => by
      obtain ⟨definition, -, needed⟩ := mem_needs.1 needed
      exact mem_listed.2 (mem_principals.1 needed).2.2)
    (fun name cycle => acyclic name (Relation.TransGen.mono (fun _ _ step => refers step.2) _ _ cycle))
  have rest : (byName definitions).keys.filter (fun name => !placed.contains name) = [] := by
    refine List.filter_eq_nil_iff.2 fun name member => ?_
    have found := complete name (mem_listed.2 (Std.ExtTreeMap.mem_keys.1 member))
    simp [found]
  rw [rest, List.append_nil] at split
  have ordered := schedule.pairwise
  rw [← split, ← map_name_saveOrder distinct, List.pairwise_map] at ordered
  have unrepeated := saveOrder_nodup distinct
  rw [List.nodup_iff_pairwise_ne, List.pairwise_map] at unrepeated
  refine (ordered.and unrepeated).imp_of_mem fun {early late} he hl h relationship declared same => ?_
  rw [mem_saveOrder distinct] at he hl
  refine h.1 (mem_needs.2 ⟨early, (getElem?_byName distinct).2 ⟨he, rfl⟩, mem_principals.2 ?_⟩)
  exact ⟨⟨relationship, declared, same⟩, Ne.symm h.2, (mem_byName distinct).2 ⟨late, hl, rfl⟩⟩

end Definitions
end SaveOrder

namespace Catalog
variable {catalog : Catalog}

theorem mem_definitions {definition : Definition} :
    definition ∈ catalog.definitions ↔ catalog.entities[definition.name.text]? = some definition := by
  simp only [definitions, values_eq, List.mem_map, Prod.exists, exists_eq_right,
    Std.ExtTreeMap.mem_toList_iff_getElem?_eq_some]
  constructor
  · rintro ⟨name, found⟩
    rwa [(catalog.registered name definition found).1]
  · exact fun found => ⟨_, found⟩

theorem definitions_distinct (catalog : Catalog) : (catalog.definitions.map fun d => d.name.text).Nodup := by
  have names : (catalog.definitions.map fun d => d.name.text) = catalog.entities.keys := by
    rw [definitions, values_eq, List.map_map, ← Std.ExtTreeMap.map_fst_toList_eq_keys]
    refine List.map_congr_left fun entry member => ?_
    exact (catalog.registered _ _ (Std.ExtTreeMap.mem_toList_iff_getElem?_eq_some.1 member)).1
  rw [names]
  exact Std.ExtTreeMap.nodup_keys

end Catalog
end EntityGraph
