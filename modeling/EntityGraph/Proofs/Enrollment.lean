import EntityGraph.Groups
import Mathlib.Data.List.Basic
import Mathlib.Data.Set.Basic
import Mathlib.Tactic.Common

/-! # Enrollment in groups

An index of groups is a set of enrollments: rows in groups, each by its relationship and by the key of its
principal. Indexing a row adds the enrollments that its columns select and unindexing takes them out, whatever
was done before. A group lists its rows in key order without repetition, and is kept only while it has rows. -/
namespace EntityGraph.Groups
variable {index index' : Groups} {link other : Link} {principal parent key member : Key}
  {definition : Definition} {columns : Columns}

/-- A key in the group of a principal. -/
def Member (index : Groups) (link : Link) (principal key : Key) : Prop :=
  ∃ keys, (index.of link)[principal]? = some keys ∧ key ∈ keys

def Inhabited (index : Groups) : Prop :=
  ∀ ⦃link : Link⦄ ⦃principal : Key⦄ ⦃keys : Std.ExtTreeSet Key⦄,
    (index.of link)[principal]? = some keys → keys ≠ ∅

theorem mem_members_iff {entity relationship : String} :
    key ∈ index.members entity relationship principal ↔ index.Member ⟨entity, relationship⟩ principal key := by
  unfold members Member
  cases (index.of ⟨entity, relationship⟩)[principal]? <;> simp

theorem members_sorted (index : Groups) (entity relationship : String) (principal : Key) :
    (index.members entity relationship principal).Pairwise fun one other => compare one other = .lt :=
  Std.ExtTreeSet.ordered_toList

theorem Inhabited.exists_mem (h : index.Inhabited) {keys : Std.ExtTreeSet Key}
    (found : (index.of link)[principal]? = some keys) : ∃ key, key ∈ keys := by
  by_contra unfilled
  exact h found (Std.ExtTreeSet.eq_empty_iff_forall_not_mem.2 (not_exists.1 unfilled))

theorem not_member_empty : ¬empty.Member link principal key := by
  simp [Member, empty, of]

theorem of_join : (index.join link principal key).of other =
    if other = link then
      (index.of link).insert principal (((index.of link)[principal]?.getD ∅).insert key)
    else index.of other := by
  simp only [of, join, Std.ExtTreeMap.getElem?_insert, Std.compare_eq_iff_eq]
  grind

theorem of_leave : (index.leave link principal key).of other =
    if other = link then
      match (index.of link)[principal]? with
      | none => index.of link
      | some keys =>
        if (keys.erase key).isEmpty then (index.of link).erase principal
        else (index.of link).insert principal (keys.erase key)
    else index.of other := by
  unfold leave of
  grind

theorem member_join : (index.join link principal key).Member other parent member ↔
    index.Member other parent member ∨ other = link ∧ parent = principal ∧ member = key := by
  simp only [Member, of_join]
  by_cases same : other = link
  · subst same
    simp only [if_true, Std.ExtTreeMap.getElem?_insert, Std.compare_eq_iff_eq, true_and]
    by_cases hp : parent = principal
    · subst hp
      cases hg : (index.of other)[parent]? <;> grind
    · simp [hp, Ne.symm hp]
  · simp [same]

theorem member_leave : (index.leave link principal key).Member other parent member ↔
    index.Member other parent member ∧ ¬(other = link ∧ parent = principal ∧ member = key) := by
  simp only [Member, of_leave]
  by_cases same : other = link
  · subst same
    simp only [if_true, true_and]
    cases hg : (index.of other)[principal]? with
    | none => grind
    | some keys =>
      have emptied : (keys.erase key).isEmpty = true → ∀ k ∈ keys, k = key := by
        intro gone k hk
        by_contra differs
        have kept : k ∈ keys.erase key := by grind
        simp [Std.ExtTreeSet.isEmpty_iff.1 gone] at kept
      grind
  · simp [same]

theorem Inhabited.join (h : index.Inhabited) : (index.join link principal key).Inhabited := by
  intro other parent keys hk
  rw [of_join] at hk
  split_ifs at hk
  · rw [Std.ExtTreeMap.getElem?_insert] at hk
    split_ifs at hk
    · cases hk
      exact Std.ExtTreeSet.insert_ne_empty
    · exact h hk
  · exact h hk

theorem Inhabited.leave (h : index.Inhabited) : (index.leave link principal key).Inhabited := by
  intro other parent keys hk
  rw [of_leave] at hk
  grind [Inhabited]

theorem member_indexRow : (index.indexRow definition key columns).Member other parent member ↔
    index.Member other parent member ∨ member = key ∧ (other, parent) ∈ principals definition columns := by
  unfold indexRow
  induction principals definition columns generalizing index with
  | nil => simp
  | cons entry entries ih =>
    rw [List.foldl_cons, ih, member_join, List.mem_cons, Prod.ext_iff]
    tauto

theorem member_unindexRow : (index.unindexRow definition key columns).Member other parent member ↔
    index.Member other parent member ∧ ¬(member = key ∧ (other, parent) ∈ principals definition columns) := by
  unfold unindexRow
  induction principals definition columns generalizing index with
  | nil => simp
  | cons entry entries ih =>
    rw [List.foldl_cons, ih, member_leave, List.mem_cons, Prod.ext_iff]
    tauto

theorem Inhabited.indexRow (h : index.Inhabited) : (index.indexRow definition key columns).Inhabited := by
  unfold Groups.indexRow
  induction principals definition columns generalizing index with
  | nil => exact h
  | cons entry entries ih => exact ih h.join

theorem Inhabited.unindexRow (h : index.Inhabited) : (index.unindexRow definition key columns).Inhabited := by
  unfold Groups.unindexRow
  induction principals definition columns generalizing index with
  | nil => exact h
  | cons entry entries ih => exact ih h.leave

theorem mem_unindexRow : link ∈ (index.unindexRow definition key columns).groups ↔ link ∈ index.groups := by
  unfold unindexRow
  induction principals definition columns generalizing index with
  | nil => rfl
  | cons entry entries ih =>
    rw [List.foldl_cons, ih]
    unfold leave
    grind

theorem mem_indexRow : link ∈ (index.indexRow definition key columns).groups ↔
    link ∈ index.groups ∨ ∃ principal, (link, principal) ∈ principals definition columns := by
  unfold indexRow
  induction principals definition columns generalizing index with
  | nil => simp
  | cons entry entries ih =>
    rw [List.foldl_cons, ih]
    unfold join
    grind

theorem mem_principals_iff : (link, principal) ∈ principals definition columns ↔
    ∃ relationship ∈ definition.relationships, link = ⟨definition.name.text, relationship.name⟩ ∧
      columns[relationship.field]?.bind Key.ofValue? = some principal := by
  simp only [principals, List.mem_filterMap, Option.map_eq_some_iff, Prod.mk.injEq]
  grind

/-- Without empty groups an index is determined by its relationships and its members. -/
theorem eq_of_member (inhabited : index.Inhabited) (inhabited' : index'.Inhabited)
    (links : ∀ link, link ∈ index.groups ↔ link ∈ index'.groups)
    (members : ∀ {link : Link} {principal key : Key},
      index.Member link principal key ↔ index'.Member link principal key) : index = index' := by
  have groups : ∀ link, index.of link = index'.of link := by
    intro link
    refine Std.ExtTreeMap.ext_getElem? fun principal => ?_
    have same := fun key => @members link principal key
    unfold Member at same
    cases mine : (index.of link)[principal]? with
    | none =>
      cases yours : (index'.of link)[principal]? with
      | none => rfl
      | some keys =>
        obtain ⟨key, member⟩ := inhabited'.exists_mem yours
        obtain ⟨_, grouped, -⟩ := (same key).2 ⟨keys, yours, member⟩
        cases mine.symm.trans grouped
    | some keys =>
      cases yours : (index'.of link)[principal]? with
      | none =>
        obtain ⟨key, member⟩ := inhabited.exists_mem mine
        obtain ⟨_, grouped, -⟩ := (same key).1 ⟨keys, mine, member⟩
        cases yours.symm.trans grouped
      | some keys' =>
        refine congrArg some (Std.ExtTreeSet.ext_mem fun key => ?_)
        simpa [mine, yours] using same key
  have whole : index.groups = index'.groups := by
    refine Std.ExtTreeMap.ext_getElem? fun link => ?_
    have same := groups link
    have present := links link
    unfold of at same
    cases mine : index.groups[link]? <;> cases yours : index'.groups[link]? <;> grind
  cases index
  cases index'
  exact congrArg Groups.mk whole

/-- Indices with the same memberships list the same members. -/
theorem members_eq_of_member (same : ∀ {link : Link} {principal key : Key},
    index.Member link principal key ↔ index'.Member link principal key) (entity relationship : String)
    (principal : Key) : index.members entity relationship principal = index'.members entity relationship principal := by
  unfold members
  congr 1
  refine Std.ExtTreeSet.ext_mem fun key => ?_
  rw [← Std.ExtTreeSet.mem_toList, ← Std.ExtTreeSet.mem_toList]
  exact mem_members_iff.trans (same.trans mem_members_iff.symm)

/-- A row that is taken out of its groups and put back leaves the index as it was. -/
theorem indexRow_unindexRow (inhabited : index.Inhabited)
    (memberships : ∀ entry ∈ principals definition columns, index.Member entry.1 entry.2 key) :
    (index.unindexRow definition key columns).indexRow definition key columns = index := by
  refine eq_of_member inhabited.unindexRow.indexRow inhabited (fun link => ?_) ?_
  · rw [mem_indexRow, mem_unindexRow]
    refine or_iff_left_of_imp ?_
    rintro ⟨principal, selected⟩
    obtain ⟨keys, found, -⟩ := memberships _ selected
    unfold of at found
    by_contra absent
    simp [absent] at found
  · intro link principal member
    rw [member_indexRow, member_unindexRow]
    constructor
    · rintro (⟨kept, -⟩ | ⟨rfl, selected⟩)
      · exact kept
      · exact memberships _ selected
    · intro kept
      by_cases selected : member = key ∧ (link, principal) ∈ principals definition columns
      · exact .inr selected
      · exact .inl ⟨kept, selected⟩

/-- A row of an entity in the group that one of its relationships has for a principal. -/
structure Enrollment where
  entity : String
  relationship : String
  principal : Key
  key : Key

/-- The enrollments of a row: one for every relationship whose foreign key is an integer or a text. -/
def selected (definition : Definition) (key : Key) (columns : Columns) : Set Enrollment :=
  {place | place.entity = definition.name.text ∧ place.key = key ∧
    ∃ relationship ∈ definition.relationships, relationship.name = place.relationship ∧
      columns[relationship.field]? = some place.principal.toValue}

/-- A row that enters the groups that its columns select, or leaves them. -/
inductive Update where
  | index (definition : Definition) (key : Key) (columns : Columns)
  | unindex (definition : Definition) (key : Key) (columns : Columns)

/-- What an update makes of an index. -/
def Update.run (index : Groups) : Update → Groups
  | .index definition key columns => index.indexRow definition key columns
  | .unindex definition key columns => index.unindexRow definition key columns

/-- What an update makes of a set of enrollments. -/
def Update.enroll (rows : Set Enrollment) : Update → Set Enrollment
  | .index definition key columns => rows ∪ selected definition key columns
  | .unindex definition key columns => rows \ selected definition key columns

/-- The index after some updates. -/
def after (updates : List Update) : Groups := updates.foldl Update.run empty

/-- The rows that are enrolled after some updates. -/
def enrolled (updates : List Update) : Set Enrollment := updates.foldl Update.enroll ∅

/-- An index without empty groups whose members are the enrolled rows. -/
structure Keeps (index : Groups) (rows : Set Enrollment) : Prop where
  inhabited : index.Inhabited
  member_iff : ∀ {entity relationship : String} {principal key : Key},
    index.Member ⟨entity, relationship⟩ principal key ↔ ⟨entity, relationship, principal, key⟩ ∈ rows

theorem mem_selected_iff {entity relationship : String} :
    ⟨entity, relationship, principal, member⟩ ∈ selected definition key columns ↔
      member = key ∧ (⟨entity, relationship⟩, principal) ∈ principals definition columns := by
  simp only [selected, Set.mem_ofPred_eq, mem_principals_iff, Link.mk.injEq, Option.bind_eq_some_iff,
    Key.ofValue?_eq_some_iff]
  grind

theorem empty_keeps : empty.Keeps ∅ where
  inhabited link principal keys found := by simp [of, empty] at found
  member_iff := by simp [not_member_empty]

variable {rows : Set Enrollment}

/-- An update does to the index what it does to the set. -/
theorem Keeps.update (h : index.Keeps rows) (update : Update) : (update.run index).Keeps (update.enroll rows) := by
  cases update with
  | index definition key columns =>
    refine ⟨h.inhabited.indexRow, fun {entity relationship principal member} => ?_⟩
    rw [Update.run, Update.enroll, member_indexRow, Set.mem_union, h.member_iff, mem_selected_iff]
  | unindex definition key columns =>
    refine ⟨h.inhabited.unindexRow, fun {entity relationship principal member} => ?_⟩
    rw [Update.run, Update.enroll, member_unindexRow, Set.mem_sdiff, h.member_iff, mem_selected_iff]

theorem Keeps.updates (h : index.Keeps rows) (updates : List Update) :
    (updates.foldl Update.run index).Keeps (updates.foldl Update.enroll rows) := by
  -- the set changes with the index, so the induction is over both
  induction updates generalizing index rows with
  | nil => exact h
  | cons update updates ih => exact ih (h.update update)

/-- Without empty groups there is a group exactly where a row is enrolled. -/
theorem Keeps.mem_of_iff (h : index.Keeps rows) :
    principal ∈ index.of link ↔ ∃ key, ⟨link.entity, link.relationship, principal, key⟩ ∈ rows := by
  simp only [← h.member_iff]
  constructor
  · intro kept
    obtain ⟨key, member⟩ := h.inhabited.exists_mem (Std.ExtTreeMap.getElem?_eq_some_getElem kept)
    exact ⟨key, _, Std.ExtTreeMap.getElem?_eq_some_getElem kept, member⟩
  · rintro ⟨key, keys, found, -⟩
    exact Std.ExtTreeMap.mem_iff_isSome_getElem?.2 (by simp [found])

/-- After any updates a group lists the enrolled rows and no others, each once and in key order, and there is a
group only where a row is enrolled. -/
theorem members_enrolled (updates : List Update) :
    (∀ entity relationship principal,
      ((after updates).members entity relationship principal).Pairwise (fun one other => compare one other = .lt) ∧
        ∀ key, key ∈ (after updates).members entity relationship principal ↔
          ⟨entity, relationship, principal, key⟩ ∈ enrolled updates) ∧
    ∀ link principal, principal ∈ (after updates).of link ↔
      ∃ key, ⟨link.entity, link.relationship, principal, key⟩ ∈ enrolled updates := by
  have keeps : (after updates).Keeps (enrolled updates) := empty_keeps.updates updates
  constructor
  · intro entity relationship principal
    refine ⟨members_sorted _ entity relationship principal, fun key => ?_⟩
    rw [mem_members_iff, keeps.member_iff]
  · exact fun link principal => keeps.mem_of_iff

end EntityGraph.Groups
