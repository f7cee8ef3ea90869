import EntityGraph.Proofs.Coherence

/-! # Writes

A write changes one row, which may move to another key, and the groups that the row is in. -/
namespace EntityGraph

namespace EntitySet
variable {set after : EntitySet} {key target other : Key} {slot : Slot}

/-- The row under a key is now under a target, which was free if it is another key. A new row stays new, a
persisted one is marked while it differs from its baseline, and no other row has changed. -/
structure Moved (set after : EntitySet) (key target : Key) (slot : Slot) : Prop where
  definition : after.definition = set.definition
  vacant : target ≠ key → set.rows[target]? = none
  arrived : after.rows[target]? = some slot
  departed : target ≠ key → after.rows[key]? = none
  inserted : target ∈ after.inserted ↔ key ∈ set.inserted
  updated : target ∈ after.updated ↔ key ∉ set.inserted ∧ slot.baseline ≠ some slot.row.columns
  others : ∀ other : Key, other ≠ key → other ≠ target → after.rows[other]? = set.rows[other]? ∧
    (other ∈ after.inserted ↔ other ∈ set.inserted) ∧ (other ∈ after.updated ↔ other ∈ set.updated) ∧
    after.isPending other = set.isPending other
  removed : after.removed = set.removed
  loaded : after.loaded = set.loaded

theorem move_loaded : (set.move key target slot).loaded = set.loaded := by
  unfold move moveMarks markUpdated
  split_ifs <;> rfl

theorem isPending_congr (inserted : other ∈ after.inserted ↔ other ∈ set.inserted)
    (updated : other ∈ after.updated ↔ other ∈ set.updated) (removed : after.removed = set.removed) :
    after.isPending other = set.isPending other := by
  rw [Bool.eq_iff_iff, ← not_iff_not, Bool.not_eq_true, Bool.not_eq_true, isPending_eq_false_iff,
    isPending_eq_false_iff, inserted, updated, removed]

theorem Tracked.moved (h : set.Tracked) (vacant : target ≠ key → set.rows[target]? = none) :
    set.Moved (set.move key target slot) key target slot := by
  obtain ⟨unmarked, clean⟩ := h.unmarked vacant
  have inserted : ∀ {other : Key}, other ∈ (set.move key target slot).inserted ↔ _ := mem_move_inserted unmarked
  have updated : ∀ {other : Key}, other ∈ (set.move key target slot).updated ↔ _ := mem_move_updated unmarked clean
  constructor
  · exact move_definition
  · exact vacant
  · simp [move_rows]
  · intro moves
    simp [move_rows, moves]
  · rw [inserted, if_pos rfl]
  · rw [updated, if_pos rfl]
  · intro other ne moves
    have sameInserted : other ∈ (set.move key target slot).inserted ↔ other ∈ set.inserted := by
      rw [inserted, if_neg moves, and_iff_right ne]
    have sameUpdated : other ∈ (set.move key target slot).updated ↔ other ∈ set.updated := by
      rw [updated, if_neg moves, and_iff_right ne]
    refine ⟨?_, sameInserted, sameUpdated, isPending_congr sameInserted sameUpdated move_removed⟩
    rw [move_rows, Std.ExtTreeMap.getElem?_insert, Std.ExtTreeMap.getElem?_erase]
    simp [ne.symm, moves.symm]
  · exact move_removed
  · exact move_loaded

end EntitySet

namespace Graph
variable {catalog : Catalog} {config : GraphConfig} {graph : Graph} {name field : String} {key target : Key}
  {value : Value}

/-- A write that succeeds gives one row the converted value. The row goes over to the key that it then holds,
which is another one only when the key field is written. It keeps its identity and its baseline, and leaves the
groups of its old columns for those of the new ones. The rest of the graph stays as it is. -/
theorem Reachable.set_rewrites (reachable : Reachable catalog config graph)
    (done : (graph.set name key field value).1 = .ok target) :
    ∃ set after slot written groups, graph.entities[name]? = some set ∧ set.rows[key]? = some slot ∧
      set.definition.coerceField field value = .ok written ∧
      (if field = set.definition.key then written = target.toValue else target = key) ∧
      (graph.set name key field value).2 =
        { graph with entities := graph.entities.insert name after, groups } ∧
      set.Moved after key target (slot.written field written) ∧
      ∀ {link : Link} {principal member : Key}, groups.Member link principal member ↔
        (graph.groups.Member link principal member ∧
          ¬(member = key ∧ (link, principal) ∈ Groups.principals set.definition slot.row.columns)) ∨
        member = target ∧
          (link, principal) ∈ Groups.principals set.definition (slot.written field written).row.columns := by
  have sound := reachable.sound
  rcases writeField_cases sound name key field value graph.config.checkReferences with
    ⟨e, refused⟩ | ⟨set, slot, written, place, passes, moved⟩
  · rw [Graph.set, refused] at done
    cases done
  · rw [Graph.set, moved] at done
    cases done
    refine ⟨set, _, slot, written, _, passes.found, passes.held,
      (Definition.coerceWrite_eq_ok_iff.1 passes.accepted).1, ?_, congrArg Prod.snd moved,
      (sound.tracked passes.found).moved fun moves => (passes.free moves).1, ?_⟩
    · split_ifs with isKey
      · subst isKey
        exact passes.lands
      · exact passes.stays sound isKey
    · intro link principal member
      rw [Groups.member_indexRow, EntitySet.ungroup_of_row passes.held, Groups.member_unindexRow]
      rfl

end Graph

namespace Forest

/-- A node that is its own parent refers to its old key when it has moved to a new one. -/
theorem looped_rekeyed : (looped.set "node" (.integer 1) "id" (.integer 5)).1 = .ok (.integer 5) ∧
    ∃ after, (looped.set "node" (.integer 1) "id" (.integer 5)).2.entities["node"]? = some after ∧
      after.rows[Key.integer 1]? = none ∧
      after.rows[Key.integer 5]? = some ⟨⟨node, 0, columns 5 (.integer 1)⟩, none⟩ ∧
      (looped.set "node" (.integer 1) "id" (.integer 5)).2.groups.Member ⟨"node", "up"⟩ (.integer 1) (.integer 5) ∧
      ¬(looped.set "node" (.integer 1) "id" (.integer 5)).2.groups.Member ⟨"node", "up"⟩ (.integer 1) (.integer 1) := by
  have evaluated : (looped.set "node" (.integer 1) "id" (.integer 5)).1 = .ok (.integer 5) ∧
      (looped.entities["node"]?.bind fun set => set.rows[Key.integer 1]?) =
        some ⟨⟨node, 0, columns 1 (.integer 1)⟩, none⟩ ∧
      node.coerceField "id" (.integer 5) = .ok (.integer 5) ∧
      (columns 1 (.integer 1)).insert "id" (.integer 5) = columns 5 (.integer 1) ∧
      (⟨"node", "up"⟩, Key.integer 1) ∈ Groups.principals node (columns 1 (.integer 1)) ∧
      (⟨"node", "up"⟩, Key.integer 1) ∈ Groups.principals node (columns 5 (.integer 1)) := by decide +kernel
  obtain ⟨done, standing, converts, rewritten, before, now⟩ := evaluated
  obtain ⟨set, after, slot, written, groups, found, held, converted, -, same, moved, member⟩ :=
    Graph.Reachable.set_rewrites looped_reachable done
  obtain ⟨-, owner⟩ := node_of_found looped_reachable found
  rw [found, Option.bind_some, held, Option.some.injEq] at standing
  subst standing
  rw [owner] at converted member
  cases converts.symm.trans converted
  have arrived : (Slot.written ⟨⟨node, 0, columns 1 (.integer 1)⟩, none⟩ "id" (.integer 5)) =
      ⟨⟨node, 0, columns 5 (.integer 1)⟩, none⟩ := by
    rw [Slot.written, rewritten]
  rw [arrived] at moved member
  refine ⟨done, after, by simp [same], moved.departed (by decide), moved.arrived, ?_, ?_⟩
  · rw [same]
    exact member.2 (.inr ⟨rfl, now⟩)
  · rw [same]
    rintro stays
    rcases member.1 stays with ⟨-, kept⟩ | ⟨elsewhere, -⟩
    · exact kept ⟨rfl, before⟩
    · exact absurd elsewhere (by decide)

end Forest
end EntityGraph
