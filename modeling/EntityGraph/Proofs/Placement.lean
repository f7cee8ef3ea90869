import EntityGraph.Proofs.Cycles

/-! # The order of placing

The save order as its result alone describes it: time and again the least name among the entities whose
principals are placed, then the others in name order. Scanning all entities before each step gives just
this one order, and so does the counting loop, whose counters stay exact and never go below zero. -/
namespace EntityGraph
namespace SaveOrder

/-- One principal of an entity has been placed, unless the entity waits for none. -/
def State.release? (state : State) (dependent : String) : Option State :=
  if state.waiting[dependent]? = some 0 then none else some (state.release dependent)

/-- Places ready entities and gives up where a counter would go below zero. -/
def place? (dependents : String → Std.ExtTreeSet String) : Nat → State → Option (List String)
  | 0, _ => some []
  | fuel + 1, state =>
    match state.ready.toList with
    | [] => some []
    | name :: _ => do
      let placed := { state with ready := state.ready.erase name }
      let next ← (dependents name).toList.foldlM State.release? placed
      let rest ← place? dependents fuel next
      return name :: rest

/-- The names in save order, if no counter goes below zero on the way. -/
def names? (definitions : List Definition) : Option (List String) := do
  let listed := byName definitions
  let waiting := waiting listed definitions
  let ready := Std.ExtTreeSet.ofList ((waiting.toList.filter fun entry => entry.2 == 0).map Prod.fst)
  let placed ← place? (dependents listed definitions) listed.size ⟨waiting, ready⟩
  return placed ++ listed.keys.filter fun name => !placed.contains name

/-- The definitions in save order, if no counter goes below zero on the way. -/
def saveOrder? (definitions : List Definition) : Option (List Definition) :=
  (names? definitions).map fun names => names.filterMap fun name => (byName definitions)[name]?

section Counters
variable {needs : String → Finset String} {listed placed : Finset String}
  {dependents : String → Std.ExtTreeSet String} {state : State} {name : String}

/-- Counters that are not zero can all be lowered once. -/
theorem foldlM_release? {names : List String} (distinct : names.Nodup)
    (positive : ∀ name ∈ names, state.waiting[name]? ≠ some 0) :
    names.foldlM State.release? state = some (names.foldl State.release state) := by
  induction names generalizing state with
  | nil => rfl
  | cons first names ih =>
    obtain ⟨fresh, distinct⟩ := List.nodup_cons.1 distinct
    rw [List.foldlM_cons, State.release?, if_neg (positive first List.mem_cons_self)]
    refine ih distinct fun name later => ?_
    have differ : name ≠ first := fun same => fresh (same ▸ later)
    rw [getElem?_waiting_release, if_neg differ]
    exact positive name (List.mem_cons_of_mem first later)

/-- A counter stands at the number of principals that are still to be placed, so when one of these is placed
it is not zero. -/
theorem Placing.positive (h : Placing needs listed placed state) {other : String} (unplaced : name ∉ placed)
    (needed : name ∈ needs other) : state.waiting[other]? ≠ some 0 := by
  rw [h.waiting]
  split_ifs
  · have left : name ∈ needs other \ placed := Finset.mem_sdiff.2 ⟨needed, unplaced⟩
    simpa using Finset.ne_empty_of_mem left
  · simp

theorem place?_eq (irreflexive : ∀ name, name ∉ needs name)
    (hdependents : ∀ name other, other ∈ dependents name ↔ other ∈ listed ∧ name ∈ needs other)
    (h : Placing needs listed placed state) (fuel : Nat) :
    place? dependents fuel state = some (place dependents fuel state) := by
  induction fuel generalizing placed state with
  | zero => rfl
  | succ fuel ih =>
    unfold place? place
    cases first : state.ready.toList with
    | nil => rfl
    | cons name rest =>
      have ready : name ∈ state.ready := by
        rw [← Std.ExtTreeSet.mem_toList, first]
        exact List.mem_cons_self
      obtain ⟨-, unplaced, -⟩ := (h.ready name).1 ready
      -- who depends on the name still waits for it, since it has only now been placed
      have lowered := @foldlM_release? { state with ready := state.ready.erase name } _
        (toList_nodup (dependents name)) fun other member =>
          h.positive unplaced ((hdependents name other).1 (Std.ExtTreeSet.mem_toList.1 member)).2
      simp [lowered, ih (h.next irreflexive hdependents ready)]

/-- No counter goes below zero, so the order is the same with the check as without it. -/
theorem saveOrder?_eq {definitions : List Definition} (distinct : (definitions.map fun d => d.name.text).Nodup) :
    saveOrder? definitions = some (saveOrder definitions) := by
  have counted : names? definitions = some (names definitions) := by
    unfold names? names
    simp [place?_eq (notMem_needs distinct) (fun _ _ => mem_dependents distinct) (placing_start distinct)]
  rw [saveOrder?, counted]
  rfl

end Counters

section Definitions
variable {definitions placed order : List Definition} {definition : Definition}

/-- All listed entities to which a definition refers are placed. -/
def Ready (definitions placed : List Definition) (definition : Definition) : Prop :=
  ∀ principal ∈ definitions, Refers definitions definition.name.text principal.name.text → principal ∈ placed

/-- One definition comes before another one in name order. -/
def Precedes (early late : Definition) : Prop := compare early.name.text late.name.text = .lt

instance : Std.Irrefl Precedes := ⟨fun definition => by simp [Precedes]⟩

instance : Std.Antisymm Precedes :=
  ⟨fun _ _ before after => absurd after (Std.OrientedCmp.not_lt_of_lt before)⟩

/-- What follows after some entities: the least name among those that are ready, then what follows after
this one, and once none is ready all others in name order. -/
inductive Placement (definitions : List Definition) : List Definition → List Definition → Prop
  | next {placed rest : List Definition} {first : Definition} (member : first ∈ definitions)
      (unplaced : first ∉ placed) (ready : Ready definitions placed first)
      (least : ∀ other ∈ definitions, other ∉ placed → Ready definitions placed other →
        (compare first.name.text other.name.text).isLE = true)
      (later : Placement definitions (first :: placed) rest) : Placement definitions placed (first :: rest)
  | stuck {placed rest : List Definition}
      (blocked : ∀ other ∈ definitions, other ∉ placed → ¬Ready definitions placed other)
      (left : ∀ other, other ∈ rest ↔ other ∈ definitions ∧ other ∉ placed)
      (sorted : rest.Pairwise Precedes) : Placement definitions placed rest

theorem eq_of_name (distinct : (definitions.map fun d => d.name.text).Nodup) {other : Definition}
    (member : definition ∈ definitions) (member' : other ∈ definitions)
    (same : definition.name.text = other.name.text) : definition = other :=
  List.inj_on_of_nodup_map distinct member member' same

/-- Nothing is left to choose. -/
theorem Placement.unique (distinct : (definitions.map fun d => d.name.text).Nodup) {order' : List Definition}
    (h : Placement definitions placed order) (h' : Placement definitions placed order') : order = order' := by
  induction h generalizing order' with
  | next member unplaced ready least later ih =>
    cases h' with
    | next member' unplaced' ready' least' later' =>
      have same := Std.OrientedCmp.isLE_antisymm (least _ member' unplaced' ready') (least' _ member unplaced ready)
      cases eq_of_name distinct member member' (Std.compare_eq_iff_eq.1 same)
      rw [ih later']
    | stuck blocked => exact absurd ready (blocked _ member unplaced)
  | stuck blocked left sorted =>
    cases h' with
    | next member' unplaced' ready' => exact absurd ready' (blocked _ member' unplaced')
    | stuck _ left' sorted' =>
      exact sorted.eq_of_mem_iff sorted' fun other => (left other).trans (left' other).symm

theorem Ready.of_mem_iff {others : List Definition} (same : ∀ d, d ∈ others ↔ d ∈ definitions) :
    Ready others placed definition ↔ Ready definitions placed definition := by
  simp only [Ready, Refers, same]

/-- What is listed counts, not where. -/
theorem Placement.of_mem_iff {others : List Definition} (same : ∀ d, d ∈ others ↔ d ∈ definitions)
    (h : Placement definitions placed order) : Placement others placed order := by
  induction h with
  | next member unplaced ready least _ ih =>
    refine .next ((same _).2 member) unplaced ((Ready.of_mem_iff same).2 ready) (fun other listed fresh met => ?_) ih
    exact least other ((same other).1 listed) fresh ((Ready.of_mem_iff same).1 met)
  | stuck blocked left sorted =>
    refine .stuck (fun other listed fresh met => ?_) (fun other => (left other).trans (and_congr_left' ?_)) sorted
    · exact blocked other ((same other).1 listed) fresh ((Ready.of_mem_iff same).1 met)
    · exact (same other).symm

/-- The names of some entities. -/
def nameSet (placed : List Definition) : Finset String := (placed.map fun d => d.name.text).toFinset

theorem mem_nameSet (distinct : (definitions.map fun d => d.name.text).Nodup) (within : placed ⊆ definitions)
    (member : definition ∈ definitions) : definition.name.text ∈ nameSet placed ↔ definition ∈ placed := by
  rw [nameSet, List.mem_toFinset, List.mem_map]
  constructor
  · rintro ⟨other, found, same⟩
    rwa [← eq_of_name distinct (within found) member same]
  · exact fun found => ⟨definition, found, rfl⟩

theorem ready_iff (distinct : (definitions.map fun d => d.name.text).Nodup) (within : placed ⊆ definitions) :
    Ready definitions placed definition ↔ needs definitions definition.name.text ⊆ nameSet placed := by
  constructor
  · intro met name needed
    obtain ⟨refers, listed⟩ := (mem_needs_iff distinct).1 needed
    obtain ⟨principal, member, rfl⟩ := (mem_listed_iff distinct).1 listed
    exact (mem_nameSet distinct within member).2 (met principal member refers)
  · intro met principal member refers
    have listed := (mem_listed_iff distinct).2 ⟨principal, member, rfl⟩
    exact (mem_nameSet distinct within member).1 (met ((mem_needs_iff distinct).2 ⟨refers, listed⟩))

/-- The definitions whose names are not done, in name order. -/
def leftOver (definitions : List Definition) (done : Finset String) : List Definition :=
  ((byName definitions).keys.filter fun name => name ∉ done).filterMap fun name => (byName definitions)[name]?

theorem mem_leftOver (distinct : (definitions.map fun d => d.name.text).Nodup) {done : Finset String} :
    definition ∈ leftOver definitions done ↔ definition ∈ definitions ∧ definition.name.text ∉ done := by
  simp only [leftOver, List.mem_filterMap, List.mem_filter, Std.ExtTreeMap.mem_keys, mem_byName distinct,
    decide_eq_true_eq, getElem?_byName distinct]
  constructor
  · rintro ⟨name, ⟨-, unplaced⟩, member, rfl⟩
    exact ⟨member, unplaced⟩
  · exact fun ⟨member, unplaced⟩ => ⟨_, ⟨⟨definition, member, rfl⟩, unplaced⟩, member, rfl⟩

theorem leftOver_sorted (distinct : (definitions.map fun d => d.name.text).Nodup) (done : Finset String) :
    (leftOver definitions done).Pairwise Precedes := by
  refine (Std.ExtTreeMap.ordered_keys.filter _).filterMap _ fun name other before first hfirst second hsecond => ?_
  obtain ⟨-, rfl⟩ := (getElem?_byName distinct).1 hfirst
  obtain ⟨-, rfl⟩ := (getElem?_byName distinct).1 hsecond
  exact before

/-- A schedule of names places the definitions with these names, followed by those that are left over. -/
theorem Schedule.placement (distinct : (definitions.map fun d => d.name.text).Nodup) {done : Finset String}
    {names : List String} (h : Schedule (needs definitions) (listed definitions) done names)
    (within : placed ⊆ definitions) (hdone : done = nameSet placed) :
    Placement definitions placed
      (names.filterMap (fun name => (byName definitions)[name]?) ++
        leftOver definitions (done ∪ names.toFinset)) := by
  induction h generalizing placed with
  | stuck blocked =>
    subst hdone
    refine .stuck (fun other member fresh met => ?_) (fun other => ?_) ?_
    · exact blocked _ ((mem_listed_iff distinct).2 ⟨other, member, rfl⟩)
        ((mem_nameSet distinct within member).not.2 fresh) ((ready_iff distinct within).1 met)
    · rw [List.filterMap_nil, List.nil_append, List.toFinset_nil, Finset.union_empty, mem_leftOver distinct]
      exact and_congr_right fun member => (mem_nameSet distinct within member).not
    · simpa using leftOver_sorted distinct _
  | next listed unplaced ready least _ ih =>
    subst hdone
    obtain ⟨first, member, rfl⟩ := (mem_listed_iff distinct).1 listed
    have found := (getElem?_byName distinct).2 ⟨member, rfl⟩
    have later := ih (List.cons_subset.2 ⟨member, within⟩) (by simp [nameSet])
    rw [List.filterMap_cons, found, List.toFinset_cons, Finset.union_insert, ← Finset.insert_union]
    refine .next member ((mem_nameSet distinct within member).not.1 unplaced)
      ((ready_iff distinct within).2 ready) (fun other listed fresh met => ?_) later
    exact least _ ((mem_listed_iff distinct).2 ⟨other, listed, rfl⟩)
      ((mem_nameSet distinct within listed).not.2 fresh) ((ready_iff distinct within).1 met)

theorem placement_saveOrder (distinct : (definitions.map fun d => d.name.text).Nodup) :
    Placement definitions [] (saveOrder definitions) := by
  obtain ⟨names, schedule, split⟩ := names_schedule distinct
  have placement := schedule.placement distinct (List.nil_subset definitions) rfl
  rw [saveOrder, split, List.filterMap_append]
  simpa [leftOver, nameSet] using placement

theorem saveOrder_perm (distinct : (definitions.map fun d => d.name.text).Nodup) :
    (saveOrder definitions).Perm definitions := by
  rw [List.perm_ext_iff_of_nodup (saveOrder_nodup distinct).of_map distinct.of_map]
  exact fun definition => mem_saveOrder distinct

/-- Definitions with different names have one save order: it places all of them, time and again the least
name that is ready and then the others by name, from wherever they stand in the list, and no counter goes
below zero. -/
theorem placement_iff_saveOrder (distinct : (definitions.map fun d => d.name.text).Nodup) :
    (∀ order, Placement definitions [] order ↔ order = saveOrder definitions) ∧
      (saveOrder definitions).Perm definitions ∧
      (∀ others : List Definition, others.Perm definitions → saveOrder others = saveOrder definitions) ∧
      saveOrder? definitions = some (saveOrder definitions) := by
  have placement := placement_saveOrder distinct
  refine ⟨fun order => ⟨fun h => h.unique distinct placement, ?_⟩, saveOrder_perm distinct, ?_,
    saveOrder?_eq distinct⟩
  · rintro rfl
    exact placement
  · intro others permuted
    have distinct' := (permuted.map fun d => d.name.text).nodup_iff.2 distinct
    have moved := (placement_saveOrder distinct').of_mem_iff fun definition => permuted.symm.mem_iff
    exact moved.unique distinct placement

end Definitions
end SaveOrder

namespace Bank

def safeName : EntityName := ⟨"safe", by decide +kernel⟩

def vaultName : EntityName := ⟨"vault", by decide +kernel⟩

def lockName : EntityName := ⟨"lock", by decide +kernel⟩

def safe : Definition := entity safeName [vaultName, safeName, lockName]

def vault : Definition := entity vaultName []

/-- A safe stands in a vault or in another safe and has a lock, which is not listed. -/
def secured : List Definition := [safe, clerk, branch, account, vault]

/-- Vaults come before safes, and only then the accounts with what they wait for. -/
theorem vault_before_safe : SaveOrder.Placement secured [] [vault, safe, account, branch, clerk] ∧
    saveOrder secured.reverse = [vault, safe, account, branch, clerk] := by
  have order : saveOrder secured = [vault, safe, account, branch, clerk] := by decide +kernel
  obtain ⟨placements, -, moved, -⟩ := @SaveOrder.placement_iff_saveOrder secured (by decide)
  exact ⟨(placements _).2 order.symm, (moved _ (List.reverse_perm _)).trans order⟩

end Bank
end EntityGraph
