import EntityGraph.Proofs.Schedule

/-! # Reference cycles in the save order

The schedule places just the entities that lead into no reference cycle, and the entities that are left
over follow in name order. So of two entities that refer to each other the principal comes first, unless
it leads into a cycle and has the greater name, even if its dependent is in no cycle itself. -/
namespace EntityGraph

section Cycles
variable {α : Type} {r : α → α → Prop} {a b : α}

/-- A path leads to something that is related to itself in one or more steps. -/
def LeadsIntoCycle (r : α → α → Prop) (a : α) : Prop :=
  ∃ b, Relation.ReflTransGen r a b ∧ Relation.TransGen r b b

theorem LeadsIntoCycle.of_step (step : r a b) (h : LeadsIntoCycle r b) : LeadsIntoCycle r a := by
  obtain ⟨c, path, cycle⟩ := h
  exact ⟨c, .head step path, cycle⟩

theorem LeadsIntoCycle.step (h : LeadsIntoCycle r a) : ∃ b, r a b ∧ LeadsIntoCycle r b := by
  obtain ⟨c, path, cycle⟩ := h
  rcases Relation.ReflTransGen.cases_head path with rfl | ⟨b, step, path⟩
  · obtain ⟨b, step, back⟩ := Relation.TransGen.head'_iff.1 cycle
    exact ⟨b, step, a, back, cycle⟩
  · exact ⟨b, step, c, path, cycle⟩

/-- Where every step can be followed by another one in a finite set, every path leads into a cycle. -/
theorem leadsIntoCycle_of_next {s : Finset α} (next : ∀ a ∈ s, ∃ b ∈ s, r a b) (member : a ∈ s) :
    LeadsIntoCycle r a := by
  classical
  by_contra free
  -- a step that starts outside of all cycles is on no cycle
  let away : α → α → Prop := fun x y => r x y ∧ ¬LeadsIntoCycle r x
  have acyclic : ∀ x, ¬Relation.TransGen away x x := by
    intro x cycle
    obtain ⟨y, start, -⟩ := Relation.TransGen.head'_iff.1 cycle
    exact start.2 ⟨x, .refl, Relation.TransGen.mono (fun _ _ step => step.1) _ _ cycle⟩
  have nonempty : (s.filter fun x => ¬LeadsIntoCycle r x).Nonempty :=
    ⟨a, Finset.mem_filter.2 ⟨member, free⟩⟩
  obtain ⟨last, hlast, minimal⟩ := exists_minimal_of_acyclic acyclic nonempty
  obtain ⟨inside, apart⟩ := Finset.mem_filter.1 hlast
  obtain ⟨after, hafter, step⟩ := next last inside
  have apart' : ¬LeadsIntoCycle r after := fun leads => apart (leads.of_step step)
  exact minimal after (Finset.mem_filter.2 ⟨hafter, apart'⟩) ⟨step, apart⟩

end Cycles

/-- Two members of a list stand in one order or the other. -/
theorem pair_sublist_or {α : Type} {l : List α} {a b : α} (ha : a ∈ l) (hb : b ∈ l) (differ : a ≠ b) :
    [a, b].Sublist l ∨ [b, a].Sublist l := by
  induction l with
  | nil => cases ha
  | cons c l ih =>
    rcases List.mem_cons.1 ha with rfl | ha'
    · have later : b ∈ l := (List.mem_cons.1 hb).resolve_left (Ne.symm differ)
      exact .inl ((List.singleton_sublist.2 later).cons_cons a)
    · rcases List.mem_cons.1 hb with rfl | hb'
      · exact .inr ((List.singleton_sublist.2 ha').cons_cons b)
      · exact (ih ha' hb').imp (·.cons c) (·.cons c)

namespace SaveOrder

section Schedule
variable {needs : String → Finset String} {listed placed : Finset String} {order : List String}
  {r : String → String → Prop}

/-- A name that leads into a cycle never gets all its needs placed. -/
theorem Schedule.not_leadsIntoCycle (h : Schedule needs listed placed order)
    (needed : ∀ {name other}, r name other → LeadsIntoCycle r other → other ∈ needs name)
    (free : ∀ name ∈ placed, ¬LeadsIntoCycle r name) : ∀ name ∈ order, ¬LeadsIntoCycle r name := by
  induction h with
  | stuck => simp
  | @next placed first order _ _ ready _ _ ih =>
    have first_free : ¬LeadsIntoCycle r first := by
      intro leads
      obtain ⟨other, step, leads⟩ := leads.step
      exact free other (ready (needed step leads)) leads
    rintro name (_ | ⟨_, later⟩)
    · exact first_free
    · refine ih (fun other member => ?_) name later
      rcases Finset.mem_insert.1 member with rfl | earlier
      · exact first_free
      · exact free other earlier

/-- A name that is left over waits for a cycle. -/
theorem Schedule.leadsIntoCycle (h : Schedule needs listed ∅ order)
    (within : ∀ name ∈ listed, needs name ⊆ listed)
    (refers : ∀ {name other}, other ∈ needs name → r name other) :
    ∀ name ∈ listed, name ∉ order → LeadsIntoCycle r name := by
  intro name member absent
  refine leadsIntoCycle_of_next (s := listed.filter (· ∉ order)) (fun left hleft => ?_)
    (Finset.mem_filter.2 ⟨member, absent⟩)
  rw [Finset.mem_filter] at hleft
  obtain ⟨other, needed, -, missing⟩ := h.left_over left hleft.1 (Finset.notMem_empty _) hleft.2
  exact ⟨other, Finset.mem_filter.2 ⟨within left hleft.1 needed, missing⟩, refers needed⟩

end Schedule

section Definitions
variable {definitions : List Definition}

/-- An entity is in a reference cycle or depends on one, directly or through others. -/
abbrev Looped (definitions : List Definition) : String → Prop := LeadsIntoCycle (Refers definitions)

theorem mem_needs_iff (distinct : (definitions.map fun d => d.name.text).Nodup) {name other : String} :
    other ∈ needs definitions name ↔ Refers definitions name other ∧ other ∈ listed definitions := by
  simp only [mem_needs, getElem?_byName distinct, mem_principals, mem_listed, Refers]
  grind

theorem mem_listed_of_looped (distinct : (definitions.map fun d => d.name.text).Nodup) {name : String}
    (looped : Looped definitions name) : name ∈ listed definitions := by
  obtain ⟨_, ⟨definition, member, named, -⟩, -⟩ := looped.step
  exact (mem_listed_iff distinct).2 ⟨definition, member, named⟩

/-- No entity comes before a principal that is in no cycle, and those that lead into cycles come last and
in name order. -/
theorem names_pairwise (distinct : (definitions.map fun d => d.name.text).Nodup) :
    (names definitions).Pairwise fun early late =>
      (late ∈ needs definitions early → Looped definitions late) ∧
        (Looped definitions early → compare early late = .lt) := by
  obtain ⟨placed, schedule, split⟩ := names_schedule distinct
  have placed_free : ∀ name ∈ placed, ¬Looped definitions name :=
    schedule.not_leadsIntoCycle
      (fun step looped => (mem_needs_iff distinct).2 ⟨step, mem_listed_of_looped distinct looped⟩) (by simp)
  have left_looped : ∀ name ∈ listed definitions, name ∉ placed → Looped definitions name :=
    schedule.leadsIntoCycle (fun _ _ _ needed => ((mem_needs_iff distinct).1 needed).2)
      fun needed => ((mem_needs_iff distinct).1 needed).1
  have left : ∀ name ∈ (byName definitions).keys.filter (fun name => !placed.contains name),
      Looped definitions name := by
    intro name member
    obtain ⟨key, unplaced⟩ := List.mem_filter.1 member
    exact left_looped name (mem_listed.2 (Std.ExtTreeMap.mem_keys.1 key)) (by simpa using unplaced)
  rw [split, List.pairwise_append]
  refine ⟨?_, ?_, fun early he late hl => ⟨fun _ => left late hl, fun looped => ?_⟩⟩
  · refine schedule.pairwise.imp_of_mem fun {early late} he _ unneeded => ?_
    exact ⟨fun needed => absurd needed unneeded, fun looped => absurd looped (placed_free early he)⟩
  · have sorted := (Std.ExtTreeMap.ordered_keys (t := byName definitions)).filter
      fun name => !placed.contains name
    exact sorted.imp_of_mem fun {early late} _ hl before =>
      ⟨fun _ => left late hl, fun _ => before⟩
  · exact absurd looped (placed_free early he)

/-- Among entities with different names, a principal comes before its dependent just while it leads into
no reference cycle or its name is less. -/
theorem saveOrder_before_iff (distinct : (definitions.map fun d => d.name.text).Nodup)
    {principal dependent : Definition} (hp : principal ∈ definitions) (hd : dependent ∈ definitions)
    (refers : Refers definitions dependent.name.text principal.name.text) :
    [principal, dependent].Sublist (saveOrder definitions) ↔
      (Looped definitions principal.name.text →
        compare principal.name.text dependent.name.text = .lt) := by
  have ordered := names_pairwise distinct
  rw [← map_name_saveOrder distinct, List.pairwise_map, List.pairwise_iff_forall_sublist] at ordered
  refine ⟨fun before => (ordered before).2, fun law => ?_⟩
  have needed : principal.name.text ∈ needs definitions dependent.name.text :=
    (mem_needs_iff distinct).2 ⟨refers, (mem_listed_iff distinct).2 ⟨principal, hp, rfl⟩⟩
  have differ : principal ≠ dependent := by
    rintro rfl
    obtain ⟨_, _, _, apart, _⟩ := refers
    exact apart rfl
  have either := pair_sublist_or ((mem_saveOrder distinct).2 hp) ((mem_saveOrder distinct).2 hd) differ
  refine either.resolve_right fun after => ?_
  have looped : Looped definitions principal.name.text := (ordered after).1 needed
  have greater := (ordered after).2 (looped.of_step refers)
  have swapped : compare principal.name.text dependent.name.text =
      (compare dependent.name.text principal.name.text).swap := Std.OrientedCmp.eq_swap
  rw [greater, law looped] at swapped
  cases swapped

end Definitions
end SaveOrder

namespace Bank

def accountName : EntityName := ⟨"account", by decide +kernel⟩

def branchName : EntityName := ⟨"branch", by decide +kernel⟩

def clerkName : EntityName := ⟨"clerk", by decide +kernel⟩

/-- An entity with an integer key and a reference to each of some entities. -/
def entity (name : EntityName) (targets : List EntityName) : Definition where
  name := name
  key := "id"
  fields := ⟨"id", .integer, true, none, none⟩ ::
    targets.map fun target => ⟨target.text, .integer, false, none, none⟩
  relationships := targets.map fun target => ⟨target.text, target.text, target, none⟩
  parameters := []
  readOnly := false
  description := none

def account : Definition := entity accountName [branchName, clerkName]

def branch : Definition := entity branchName [clerkName]

def clerk : Definition := entity clerkName [branchName]

/-- An account belongs to a branch and to a clerk, a branch has a head clerk, and a clerk works at a branch. -/
def definitions : List Definition := [account, branch, clerk]

theorem refers_iff {name other : String} : SaveOrder.Refers definitions name other ↔
    (name, other) ∈ [("account", "branch"), ("account", "clerk"), ("branch", "clerk"), ("clerk", "branch")] := by
  simp only [SaveOrder.Refers, definitions, account, branch, clerk, entity, accountName, branchName, clerkName,
    List.map_cons, List.map_nil, List.mem_cons, List.not_mem_nil, or_false, ne_eq, exists_eq_or_imp, ↓existsAndEq,
    true_and, exists_eq_left, Prod.mk.injEq]
  grind

/-- Branches come before clerks, with which they are in a cycle, by name alone. -/
theorem branch_before_clerk : SaveOrder.Looped definitions "branch" ∧
    [branch, clerk].Sublist (saveOrder definitions) := by
  have there : SaveOrder.Refers definitions "branch" "clerk" := refers_iff.2 (by decide)
  have back : SaveOrder.Refers definitions "clerk" "branch" := refers_iff.2 (by decide)
  refine ⟨⟨"branch", .refl, .head there (.single back)⟩, ?_⟩
  exact (SaveOrder.saveOrder_before_iff (by decide) (by decide) (by decide) back).2 fun _ => by decide

/-- Accounts come before the branches that they refer to, although no branch depends on an account. -/
theorem account_before_branch : (definitions.map fun d => d.name.text).Nodup ∧
    account ∈ definitions ∧ branch ∈ definitions ∧ account ≠ branch ∧
    (∃ relationship ∈ account.relationships, relationship.target = branch.name) ∧
    ¬Relation.TransGen (SaveOrder.Refers definitions) branch.name.text account.name.text ∧
    ¬[branch, account].Sublist (saveOrder definitions) := by
  have order : saveOrder definitions = [account, branch, clerk] := by decide +kernel
  refine ⟨by decide, by decide, by decide, by decide, by decide, fun chain => ?_, ?_⟩
  · obtain ⟨name, -, last⟩ := Relation.TransGen.tail'_iff.1 chain
    simp [refers_iff, account, entity, accountName] at last
  · rw [order]
    decide

end Bank
end EntityGraph
