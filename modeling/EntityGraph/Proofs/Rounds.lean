import EntityGraph.Batch
import EntityGraph.Proofs.Schedule
import Mathlib.Data.List.Pairwise

/-! # Parents first

Taking out ready rows in rounds only reorders them. The loop needs no more rounds than there are rows, and
when no rows refer to each other in a cycle it takes out in each round the rows of one depth, the length of
the longest chain of listed ancestors. So the rows are stably sorted by their depth, and none comes before
one of its parents. -/
namespace EntityGraph.Batch
variable {definition : Definition} {rows : List PendingChange}

theorem rounds_perm (fuel : Nat) (rows : List PendingChange) : (rounds definition fuel rows).Perm rows := by
  induction fuel generalizing rows with
  | zero => exact .refl rows
  | succ fuel ih =>
    have parts : (rows.filter (isReady definition rows) ++
        rows.filter fun row => !isReady definition rows row).Perm rows :=
      List.filter_append_perm _ rows
    simp only [rounds]
    split_ifs with none
    · rw [List.isEmpty_iff] at none
      rwa [none, List.nil_append] at parts
    · exact (List.Perm.append_left _ (ih _)).trans parts

/-- A round that takes out a row leaves fewer rows. -/
theorem length_blocked_lt (some : rows.filter (isReady definition rows) ≠ []) :
    (rows.filter fun row => !isReady definition rows row).length < rows.length := by
  have split := (List.filter_append_perm (isReady definition rows) rows).length_eq
  rw [List.length_append] at split
  have taken := List.length_pos_iff.2 some
  omega

/-- Rounds are run one after the other, however many it takes, until no row is ready. -/
inductive Settles (definition : Definition) : List PendingChange → List PendingChange → Prop
  | stuck {rows : List PendingChange} (none : rows.filter (isReady definition rows) = []) :
      Settles definition rows rows
  | round {rows rest : List PendingChange} (some : rows.filter (isReady definition rows) ≠ [])
      (later : Settles definition (rows.filter fun row => !isReady definition rows row) rest) :
      Settles definition rows (rows.filter (isReady definition rows) ++ rest)

/-- As many rounds as there are rows are enough. -/
theorem settles_iff {fuel : Nat} (enough : rows.length ≤ fuel) {order : List PendingChange} :
    Settles definition rows order ↔ order = rounds definition fuel rows := by
  induction fuel generalizing rows order with
  | zero =>
    cases List.length_eq_zero_iff.1 (Nat.le_zero.1 enough)
    constructor
    · rintro (_ | ⟨some, -⟩)
      · rfl
      · exact absurd rfl some
    · rintro rfl
      exact .stuck rfl
  | succ fuel ih =>
    simp only [rounds, List.isEmpty_iff]
    split_ifs with none
    · have all : (rows.filter fun row => !isReady definition rows row) = rows := by
        simpa [List.filter_eq_nil_iff] using none
      rw [all]
      constructor
      · rintro (_ | ⟨some, -⟩)
        · rfl
        · exact absurd none some
      · rintro rfl
        exact .stuck none
    · have fewer := length_blocked_lt none
      constructor
      · rintro (stuck | ⟨-, later⟩)
        · exact absurd stuck none
        · rw [(ih (by omega)).1 later]
      · rintro rfl
        exact .round none ((ih (by omega)).2 rfl)

/-- A row refers to another one. -/
def Child (definition : Definition) (row parent : PendingChange) : Prop :=
  ∃ key ∈ parents definition row.columns, definition.keyOf? parent.columns = some key

instance (definition : Definition) (row parent : PendingChange) : Decidable (Child definition row parent) :=
  inferInstanceAs (Decidable (∃ key ∈ parents definition row.columns, definition.keyOf? parent.columns = some key))

/-- A row refers to another one by the key of this one, which is not its own key, in the field of some self
reference. -/
theorem child_iff {row parent : PendingChange} : Child definition row parent ↔
    ∃ relationship ∈ definition.relationships, relationship.target = definition.name ∧
      ∃ key : Key, row.columns[relationship.field]? = some key.toValue ∧
        definition.keyOf? parent.columns = some key ∧ definition.keyOf? row.columns ≠ some key := by
  simp only [Child, parents, selfFields, List.mem_filter, List.mem_filterMap, List.mem_map, bne_iff_ne, beq_iff_eq,
    Option.bind_eq_bind, Option.bind_eq_some_iff, Key.ofValue?_eq_some_iff]
  grind

theorem isReady_iff {row : PendingChange} :
    isReady definition rows row = true ↔ ∀ parent ∈ rows, ¬Child definition row parent := by
  simp only [isReady, keysOf, List.all_eq_true, Bool.not_eq_true', List.contains_eq_mem,
    decide_eq_false_iff_not, List.mem_filterMap, Child]
  grind

/-- Listed rows that refer to each other. -/
def Listed (definition : Definition) (rows : List PendingChange) (row parent : PendingChange) : Prop :=
  row ∈ rows ∧ parent ∈ rows ∧ Child definition row parent

/-- The lengths of the chains of listed ancestors of a row: a parent, a parent of this one, and so on. -/
def chainLengths (definition : Definition) (rows : List PendingChange) (row : PendingChange) : Set Nat :=
  {n | ∃ ancestors : List PendingChange, ancestors.length = n ∧
    List.IsChain (Listed definition rows) (row :: ancestors)}

/-- The length of the longest chain of listed ancestors. -/
noncomputable def depth (definition : Definition) (rows : List PendingChange) (row : PendingChange) : Nat :=
  sSup (chainLengths definition rows row)

section Acyclic
variable {row parent : PendingChange}

/-- Without cycles a chain of listed ancestors repeats no row, so it is not longer than the list. -/
theorem isGreatest_depth (acyclic : ∀ row, ¬Relation.TransGen (Listed definition rows) row row)
    (row : PendingChange) : IsGreatest (chainLengths definition rows row) (depth definition rows row) := by
  have bounded : BddAbove (chainLengths definition rows row) := by
    refine ⟨rows.length, ?_⟩
    rintro _ ⟨ancestors, rfl, chain⟩
    have related : (row :: ancestors).Pairwise (Relation.TransGen (Listed definition rows)) :=
      (chain.imp fun _ _ => Relation.TransGen.single).pairwise
    obtain ⟨above, others⟩ := List.pairwise_cons.1 related
    have distinct : ancestors.Nodup := others.imp fun {ancestor other} linked same => by
      cases same
      exact acyclic ancestor linked
    have within : ancestors ⊆ rows := fun ancestor member => by
      obtain ⟨other, -, -, listed, -⟩ := Relation.TransGen.tail'_iff.1 (above ancestor member)
      exact listed
    exact (distinct.subperm within).length_le
  exact ⟨Nat.sSup_mem ⟨0, [], rfl, .singleton row⟩ bounded, fun _ found => le_csSup bounded found⟩

theorem depth_lt (acyclic : ∀ row, ¬Relation.TransGen (Listed definition rows) row row)
    (linked : Listed definition rows row parent) :
    depth definition rows parent < depth definition rows row := by
  obtain ⟨ancestors, same, chain⟩ := (isGreatest_depth acyclic parent).1
  have longer := (isGreatest_depth acyclic row).2 ⟨parent :: ancestors, rfl, chain.cons_cons linked⟩
  rw [List.length_cons] at longer
  omega

/-- The depth of a row that has a listed parent is one more than that of its deepest one. -/
theorem exists_parent (acyclic : ∀ row, ¬Relation.TransGen (Listed definition rows) row row)
    (deep : 0 < depth definition rows row) :
    ∃ parent, Listed definition rows row parent ∧
      depth definition rows row = depth definition rows parent + 1 := by
  obtain ⟨_ | ⟨parent, ancestors⟩, same, chain⟩ := (isGreatest_depth acyclic row).1
  · rw [← same] at deep
    cases deep
  · obtain ⟨linked, chain⟩ := List.isChain_cons_cons.1 chain
    have reaches := (isGreatest_depth acyclic parent).2 ⟨ancestors, rfl, chain⟩
    have less := depth_lt acyclic linked
    rw [List.length_cons] at same
    exact ⟨parent, linked, by omega⟩

/-- Once all rows of smaller depth are taken out, the rows of the next depth are ready, and only they. -/
theorem isReady_iff_depth (acyclic : ∀ row, ¬Relation.TransGen (Listed definition rows) row row) {least : Nat}
    (member : row ∈ rows) (left : least ≤ depth definition rows row) :
    isReady definition (rows.filter fun row => least ≤ depth definition rows row) row = true ↔
      depth definition rows row = least := by
  rw [isReady_iff]
  constructor
  · intro ready
    by_contra deeper
    obtain ⟨parent, linked, same⟩ := @exists_parent definition rows row acyclic (by omega)
    refine ready parent (List.mem_filter.2 ⟨linked.2.1, ?_⟩) linked.2.2
    simpa using (by omega : least ≤ depth definition rows parent)
  · intro same parent found child
    obtain ⟨listed, left⟩ := List.mem_filter.1 found
    have less := depth_lt acyclic ⟨member, listed, child⟩
    have left := of_decide_eq_true left
    omega

end Acyclic

section Sorting
variable {α : Type} {measure : α → Nat}

theorem head_le {a b : α} {rest : List α} (sorted : (a :: rest).Pairwise fun a b => measure a ≤ measure b)
    (member : b ∈ a :: rest) : measure a ≤ measure b := by
  rcases List.mem_cons.1 member with rfl | later
  · exact le_rfl
  · exact List.rel_of_pairwise_cons sorted later

/-- Lists that are sorted by a measure are equal if they agree in the elements of each measure. -/
theorem eq_of_filter_eq {first second : List α}
    (sorted : first.Pairwise fun a b => measure a ≤ measure b)
    (sorted' : second.Pairwise fun a b => measure a ≤ measure b)
    (same : ∀ n, first.filter (measure · = n) = second.filter (measure · = n)) : first = second := by
  induction first generalizing second with
  | nil =>
    cases second with
    | nil => rfl
    | cons b second => simpa using same (measure b)
  | cons a first ih =>
    have found : ∀ {c : α}, c ∈ a :: first ↔ c ∈ second := fun {c} => by
      have both := congrArg (c ∈ ·) (same (measure c))
      simpa [List.mem_filter] using both
    cases second with
    | nil => simpa using same (measure a)
    | cons b second =>
      have level : measure a = measure b :=
        Nat.le_antisymm (head_le sorted (found.2 List.mem_cons_self)) (head_le sorted' (found.1 List.mem_cons_self))
      -- both lists begin with the first element of the least measure
      have heads := same (measure b)
      simp only [level, decide_true, List.filter_cons_of_pos, List.cons.injEq] at heads
      obtain ⟨rfl, -⟩ := heads
      have tails : ∀ n, first.filter (measure · = n) = second.filter (measure · = n) := fun n => by
        by_cases here : measure a = n <;> simpa [here] using same n
      rw [ih sorted.of_cons sorted'.of_cons tails]

/-- Moving the elements of one measure to the front keeps the order among elements of one measure. -/
theorem filter_front (input : List α) (least n : Nat) :
    (input.filter (measure · = least) ++ input.filter (measure · ≠ least)).filter (measure · = n) =
      input.filter (measure · = n) := by
  simp only [List.filter_append, List.filter_filter]
  by_cases here : n = least
  · subst here
    simp
  · have apart : ∀ a, measure a = n → measure a ≠ least := fun a same same' => here (same.symm.trans same')
    have front : input.filter (fun a => decide (measure a = n) && decide (measure a = least)) = [] := by
      simpa [List.filter_eq_nil_iff] using fun a _ => apart a
    rw [front, List.nil_append]
    exact List.filter_congr fun a _ => by simpa using apart a

/-- The stable sort by a measure is the sorted list that keeps the order among elements of one measure. -/
theorem eq_mergeSort {input output : List α} (sorted : output.Pairwise fun a b => measure a ≤ measure b)
    (stable : ∀ n, output.filter (measure · = n) = input.filter (measure · = n)) :
    output = input.mergeSort fun a b => measure a ≤ measure b := by
  have trans : ∀ a b c : α, decide (measure a ≤ measure b) → decide (measure b ≤ measure c) →
      decide (measure a ≤ measure c) := fun a b c hab hbc => by
    simp only [decide_eq_true_eq] at hab hbc ⊢
    exact hab.trans hbc
  have total : ∀ a b : α, decide (measure a ≤ measure b) || decide (measure b ≤ measure a) := fun a b => by
    simpa using Nat.le_total (measure a) (measure b)
  refine eq_of_filter_eq sorted ?_ fun n => ?_
  · exact (List.pairwise_mergeSort trans total input).imp of_decide_eq_true
  · have level : (input.filter (measure · = n)).Pairwise fun a b => decide (measure a ≤ measure b) := by
      refine List.pairwise_of_forall_mem_list fun a ha b hb => ?_
      simp_all
    have kept := (List.sublist_mergeSort trans total level List.filter_sublist).filter (measure · = n)
    simp only [List.filter_filter, Bool.and_self] at kept
    rw [stable]
    exact kept.eq_of_length ((List.mergeSort_perm input _).filter _).length_eq.symm

end Sorting

section Acyclic
variable {left : List PendingChange}

/-- Without cycles some row of those that are left has no parent among them. -/
theorem exists_ready (acyclic : ∀ row, ¬Relation.TransGen (Listed definition rows) row row)
    (within : left ⊆ rows) (some : left ≠ []) : left.filter (isReady definition left) ≠ [] := by
  have nonempty : left.toFinset.Nonempty := (List.toFinset_nonempty_iff _).2 some
  obtain ⟨row, member, last⟩ := exists_minimal_of_acyclic acyclic nonempty
  rw [List.mem_toFinset] at member
  have ready : isReady definition left row = true := isReady_iff.2 fun parent listed child =>
    last parent (List.mem_toFinset.2 listed) ⟨within member, within listed, child⟩
  exact List.ne_nil_of_mem (List.mem_filter.2 ⟨member, ready⟩)

/-- A round over the rows from some depth on takes out the rows of this depth and leaves the deeper ones. -/
theorem round_by_depth (acyclic : ∀ row, ¬Relation.TransGen (Listed definition rows) row row) {least : Nat}
    (from_least : left = rows.filter fun row => least ≤ depth definition rows row) :
    left.filter (isReady definition left) = left.filter (depth definition rows · = least) ∧
      (left.filter fun row => !isReady definition left row) = left.filter (depth definition rows · ≠ least) ∧
      left.filter (depth definition rows · ≠ least) =
        rows.filter fun row => least + 1 ≤ depth definition rows row := by
  have ready : ∀ row ∈ left, isReady definition left row = decide (depth definition rows row = least) := by
    intro row found
    rw [from_least] at found ⊢
    obtain ⟨listed, deep⟩ := List.mem_filter.1 found
    rw [Bool.eq_iff_iff, isReady_iff_depth acyclic listed (of_decide_eq_true deep), decide_eq_true_iff]
  refine ⟨List.filter_congr ready, List.filter_congr fun row found => by simp [ready row found], ?_⟩
  rw [from_least, List.filter_filter]
  refine List.filter_congr fun row _ => ?_
  rw [Bool.eq_iff_iff]
  simp only [Bool.and_eq_true, decide_eq_true_eq]
  omega

/-- The rows from some depth on are taken out by increasing depth, those of one depth in their order. -/
theorem rounds_by_depth (acyclic : ∀ row, ¬Relation.TransGen (Listed definition rows) row row)
    {fuel least : Nat} (from_least : left = rows.filter fun row => least ≤ depth definition rows row)
    (enough : left.length ≤ fuel) :
    ((rounds definition fuel left).Pairwise fun row other =>
        depth definition rows row ≤ depth definition rows other) ∧
      ∀ n, (rounds definition fuel left).filter (depth definition rows · = n) =
        left.filter (depth definition rows · = n) := by
  induction fuel generalizing least left with
  | zero =>
    cases List.length_eq_zero_iff.1 (Nat.le_zero.1 enough)
    exact ⟨.nil, fun _ => rfl⟩
  | succ fuel ih =>
    simp only [rounds, List.isEmpty_iff]
    split_ifs with none
    · have empty : left = [] := by
        by_contra some
        exact exists_ready acyclic (from_least ▸ List.filter_subset_self _) some none
      simp [empty]
    · have fewer := length_blocked_lt none
      obtain ⟨taken, blocked, deeper⟩ := round_by_depth acyclic from_least
      obtain ⟨sorted, stable⟩ := ih (blocked.trans deeper) (by omega)
      refine ⟨List.pairwise_append.2 ⟨?_, sorted, ?_⟩, fun n => ?_⟩
      · rw [taken]
        refine List.pairwise_of_forall_mem_list fun row hr other ho => ?_
        simp_all
      · intro row hr other ho
        rw [(rounds_perm _ _).mem_iff, blocked, deeper] at ho
        rw [taken] at hr
        simp only [List.mem_filter, decide_eq_true_eq] at hr ho
        omega
      · rw [List.filter_append, stable, ← List.filter_append, taken, blocked, filter_front]

/-- The rounds sort the rows stably by their depth. -/
theorem rounds_eq_mergeSort (acyclic : ∀ row, ¬Relation.TransGen (Listed definition rows) row row) {fuel : Nat}
    (enough : rows.length ≤ fuel) :
    rounds definition fuel rows =
      rows.mergeSort fun row other => depth definition rows row ≤ depth definition rows other := by
  obtain ⟨sorted, stable⟩ := @rounds_by_depth definition rows rows acyclic fuel 0 (by simp) enough
  exact eq_mergeSort sorted stable

theorem rounds_pairwise {fuel : Nat} (enough : rows.length ≤ fuel)
    (acyclic : ∀ row, ¬Relation.TransGen (Listed definition rows) row row) :
    (rounds definition fuel rows).Pairwise fun early late => ¬Child definition early late := by
  obtain ⟨sorted, -⟩ := @rounds_by_depth definition rows rows acyclic fuel 0 (by simp) enough
  refine sorted.imp_of_mem fun {early late} he hl ordered child => ?_
  rw [(rounds_perm fuel rows).mem_iff] at he hl
  exact Nat.not_lt.2 ordered (depth_lt acyclic ⟨he, hl, child⟩)

end Acyclic

/-- Ordering the rows of an entity ends with a permutation of their changes. Without reference cycles the rows
are stably sorted by the length of the longest chain of listed ancestors, so each comes after its parents. -/
theorem parentsFirst_sorted (definition : Definition) (rows : List PendingChange) :
    (∀ row parent, Child definition row parent ↔
      ∃ relationship ∈ definition.relationships, relationship.target = definition.name ∧
        ∃ key : Key, row.columns[relationship.field]? = some key.toValue ∧
          definition.keyOf? parent.columns = some key ∧ definition.keyOf? row.columns ≠ some key) ∧
    ∃ order, (∀ other, Settles definition rows other ↔ other = order) ∧
      parentsFirst definition rows = order.map PendingChange.change ∧ order.Perm rows ∧
      ((∀ row, ¬Relation.TransGen (Listed definition rows) row row) →
        (∀ row, IsGreatest (chainLengths definition rows row) (depth definition rows row)) ∧
        order = rows.mergeSort (fun row other => depth definition rows row ≤ depth definition rows other) ∧
        order.Pairwise fun early late => ¬Child definition early late) :=
  ⟨fun _ _ => child_iff, rounds definition rows.length rows, fun _ => settles_iff le_rfl, rfl, rounds_perm _ rows,
    fun acyclic =>
      ⟨isGreatest_depth acyclic, rounds_eq_mergeSort acyclic le_rfl, rounds_pairwise le_rfl acyclic⟩⟩

end EntityGraph.Batch

namespace EntityGraph.StudBook

def horseName : EntityName := ⟨"horse", by decide +kernel⟩

/-- Horses have a dam and a sire. -/
def horse : Definition where
  name := horseName
  key := "id"
  fields := [⟨"id", .integer, true, none, none⟩, ⟨"dam", .integer, false, none, none⟩,
    ⟨"sire", .integer, false, none, none⟩]
  relationships := [⟨"dam", "dam", horseName, none⟩, ⟨"sire", "sire", horseName, none⟩]
  parameters := []
  readOnly := false
  description := none

def entered (id : Int64) (dam sire : Value) : PendingChange :=
  let columns := .ofList [("id", .integer id), ("dam", dam), ("sire", sire)]
  ⟨.insert horseName columns, columns⟩

/-- A foal with its dam, a grandsire, and a horse that is its own dam; the sire of the foal is not among them. -/
def entries : List PendingChange :=
  [entered 3 (.integer 2) (.integer 9), entered 2 .null (.integer 1), entered 1 .null .null,
    entered 4 (.integer 4) .null]

/-- The ancestors first. -/
def ordered : List PendingChange :=
  [entered 1 .null .null, entered 4 (.integer 4) .null, entered 2 .null (.integer 1),
    entered 3 (.integer 2) (.integer 9)]

theorem entries_evaluated : Batch.parentsFirst horse entries = ordered.map PendingChange.change ∧
    ∀ row ∈ entries, ∀ parent ∈ entries, Batch.Child horse row parent →
      ordered.idxOf parent < ordered.idxOf row := by
  decide +kernel

theorem idxOf_lt {row ancestor : PendingChange}
    (chain : Relation.TransGen (Batch.Listed horse entries) row ancestor) :
    ordered.idxOf ancestor < ordered.idxOf row := by
  have step : ∀ {row parent}, Batch.Listed horse entries row parent → ordered.idxOf parent < ordered.idxOf row :=
    fun {row parent} linked => entries_evaluated.2 row linked.1 parent linked.2.1 linked.2.2
  induction chain with
  | single linked => exact step linked
  | tail _ linked ih => exact (step linked).trans ih

theorem entries_sorted : (∀ row, ¬Relation.TransGen (Batch.Listed horse entries) row row) ∧
    ordered.map PendingChange.change = (entries.mergeSort fun row other =>
      Batch.depth horse entries row ≤ Batch.depth horse entries other).map PendingChange.change := by
  have acyclic : ∀ row, ¬Relation.TransGen (Batch.Listed horse entries) row row :=
    fun row cycle => lt_irrefl _ (idxOf_lt cycle)
  obtain ⟨-, order, -, result, -, sorted⟩ := Batch.parentsFirst_sorted horse entries
  rw [← entries_evaluated.1, result, (sorted acyclic).2.1]
  exact ⟨acyclic, rfl⟩

end EntityGraph.StudBook
