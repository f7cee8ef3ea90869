import EntityGraph.Proofs.Transfers

/-! # Rows under their keys

A row of a backend stands under the key that it holds, whether it was loaded or written by a batch, unless
a command handler files it elsewhere. -/
namespace EntityGraph

namespace Tables
variable {tables : Tables} {catalog : Catalog} {definition : Definition} {entity : String} {key : Key}
  {columns : Columns}

/-- Rows of known entities stand under their own keys. -/
def Keyed (tables : Tables) (catalog : Catalog) : Prop :=
  ∀ ⦃entity : String⦄ ⦃definition : Definition⦄ ⦃key : Key⦄ ⦃columns : Columns⦄,
    catalog.entities[entity]? = some definition → tables.row? entity key = some columns →
      definition.keyOf? columns = some key

theorem Keyed.put (h : tables.Keyed catalog) (registered : catalog.entities[entity]? = some definition)
    (named : definition.keyOf? columns = some key) : (tables.put entity key columns).Keyed catalog := by
  intro other found place held known row
  rw [row?_put] at row
  split_ifs at row with here
  · obtain ⟨rfl, rfl⟩ := here
    cases row
    cases registered.symm.trans known
    exact named
  · exact h known row

theorem Keyed.drop (h : tables.Keyed catalog) : (tables.drop entity key).Keyed catalog := by
  intro other found place held known row
  rw [row?_drop] at row
  split_ifs at row
  exact h known row

end Tables

namespace MemoryBackend
variable {backend : MemoryBackend} {tables : Tables} {definition : Definition} {data keys : Columns}

section Rows
variable (h : tables.Keyed backend.catalog)
  (registered : backend.catalog.entities[definition.name.text]? = some definition)
include h registered

theorem insertRow_keyed : (backend.insertRow tables definition data).2.Keyed backend.catalog := by
  unfold insertRow
  split
  · exact h
  · next key columns built =>
    obtain ⟨row, -, built⟩ := bind_eq_ok_iff.1 built
    obtain ⟨-, built⟩ := check_eq_ok_iff.1 built
    obtain ⟨place, named, built⟩ := bind_eq_ok_iff.1 built
    cases built
    dsimp only
    split
    · exact h
    · exact h.put registered (keyOf_eq_ok_iff.1 named)

theorem updateRow_keyed : (backend.updateRow tables definition keys data).2.Keyed backend.catalog := by
  unfold updateRow
  split
  · exact h
  · dsimp only
    split
    · exact h
    · split
      · exact h
      · next target columns updated =>
        obtain ⟨result, -, updated⟩ := bind_eq_ok_iff.1 updated
        obtain ⟨place, named, updated⟩ := bind_eq_ok_iff.1 updated
        obtain ⟨-, updated⟩ := check_eq_ok_iff.1 updated
        cases updated
        exact h.drop.put registered (keyOf_eq_ok_iff.1 named)

omit registered in
theorem deleteRow_keyed : (backend.deleteRow tables definition keys).2.Keyed backend.catalog := by
  unfold deleteRow
  split
  · exact h
  · dsimp only
    split
    · split
      · exact h
      · exact h.drop
    · exact h

end Rows

/-- A handler that leaves rows under their keys. -/
def Files (handler : CommandHandler) (catalog : Catalog) : Prop :=
  ∀ (tables : Tables) (parameters : Columns) (filter : Option String), tables.Keyed catalog →
    (handler tables parameters filter).2.Keyed catalog

theorem apply_keyed_of_data {change : Change} (h : tables.Keyed backend.catalog) (isData : change.isDataChange = true) :
    (backend.apply tables change).2.Keyed backend.catalog := by
  cases change with
  | insert entity data =>
    simp only [apply]
    split
    · exact h
    · next definition known => exact insertRow_keyed h (definition_registered known)
  | update entity keys data =>
    simp only [apply]
    split
    · exact h
    · next definition known => exact updateRow_keyed h (definition_registered known)
  | delete entity keys =>
    simp only [apply]
    split
    · exact h
    · next definition known => exact deleteRow_keyed h
  | command => cases isData

section Batch
variable (filing : ∀ {name : String} {handler : CommandHandler}, backend.handlers[name]? = some handler →
  Files handler backend.catalog)
include filing

theorem apply_keyed (h : tables.Keyed backend.catalog) (change : Change) :
    (backend.apply tables change).2.Keyed backend.catalog := by
  cases change with
  | command entity parameters filter =>
    simp only [apply, runCommand]
    split
    · next handler found => exact filing found tables parameters filter h
    · exact h
  | insert | update | delete => exact apply_keyed_of_data h rfl

theorem applyAll_keyed (h : tables.Keyed backend.catalog) (changes : List Change) :
    (backend.applyAll tables changes).2.Keyed backend.catalog :=
  applyAll_keeps (P := fun tables => tables.Keyed backend.catalog) (fun _ kept => apply_keyed filing kept _) h

theorem submit_keyed (h : backend.tables.Keyed backend.catalog) (changes : List Change) :
    (backend.submit changes).2.tables.Keyed backend.catalog := by
  have applied := applyAll_keyed filing h changes
  unfold submit
  split
  · exact h
  · split
    · exact h
    · next accepted => rwa [accepted] at applied

end Batch

theorem seedRows_keyed (h : tables.Keyed backend.catalog)
    (registered : backend.catalog.entities[definition.name.text]? = some definition) {rows : List Columns} :
    (seedRows tables definition rows).2.Keyed backend.catalog := by
  induction rows generalizing tables with
  | nil => exact h
  | cons columns rows ih =>
    rw [seedRows]
    split
    · exact h
    · next key row built =>
      obtain ⟨_, -, built⟩ := bind_eq_ok_iff.1 built
      obtain ⟨place, named, built⟩ := bind_eq_ok_iff.1 built
      cases built
      exact ih (h.put registered (keyOf_eq_ok_iff.1 named))

theorem seed_keyed (h : backend.tables.Keyed backend.catalog) (entity : String) (rows : List Columns) :
    (backend.seed entity rows).2.tables.Keyed backend.catalog := by
  unfold seed
  split
  · exact h
  · next definition known =>
    exact seedRows_keyed h (definition_registered known)

/-- A backend that starts without rows, as any of its handles sees it after any loads and batches, with handlers
that leave rows under their keys. -/
inductive Stocked : MemoryBackend → Prop
  | empty (catalog : Catalog) (enforcing : Bool) : Stocked (.empty catalog enforcing)
  | withForeignKeys {backend : MemoryBackend} (enforcing : Bool) :
      Stocked backend → Stocked (backend.withForeignKeys enforcing)
  | setAvailable {backend : MemoryBackend} (available : Bool) :
      Stocked backend → Stocked (backend.setAvailable available)
  | register {backend : MemoryBackend} (entity : String) {handler : CommandHandler} :
      Files handler backend.catalog → Stocked backend → Stocked (backend.register entity handler)
  | seed {backend : MemoryBackend} (entity : String) (rows : List Columns) :
      Stocked backend → Stocked (backend.seed entity rows).2
  | submit {backend : MemoryBackend} (changes : List Change) :
      Stocked backend → Stocked (backend.submit changes).2

theorem seed_rest (backend : MemoryBackend) (entity : String) (rows : List Columns) :
    ∃ tables, (backend.seed entity rows).2 = { backend with tables } := by
  unfold seed
  split
  · exact ⟨backend.tables, rfl⟩
  · exact ⟨_, rfl⟩

/-- Every row of such a backend stands under its own key. -/
theorem Stocked.filed (stocked : Stocked backend) : backend.tables.Keyed backend.catalog ∧
    ∀ {name : String} {handler : CommandHandler}, backend.handlers[name]? = some handler →
      Files handler backend.catalog := by
  induction stocked with
  | empty catalog enforcing =>
    constructor
    · intro entity definition key columns known held
      simp [MemoryBackend.empty, Tables.row?, Tables.of] at held
    · intro name handler held
      simp [MemoryBackend.empty] at held
  | withForeignKeys _ _ ih => exact ih
  | setAvailable _ _ ih => exact ih
  | @register backend entity handler files _ ih =>
    refine ⟨ih.1, fun {name found} held => ?_⟩
    change (backend.handlers.insert entity handler)[name]? = some found at held
    rw [Std.ExtTreeMap.getElem?_insert] at held
    split_ifs at held
    · cases held
      exact files
    · exact ih.2 held
  | @seed backend entity rows _ ih =>
    have kept := seed_keyed ih.1 entity rows
    obtain ⟨tables, same⟩ := seed_rest backend entity rows
    rw [same] at kept ⊢
    exact ⟨kept, ih.2⟩
  | @submit backend changes _ ih =>
    have kept := submit_keyed ih.2 ih.1 changes
    obtain ⟨tables, batches, same⟩ := submit_rest backend changes
    rw [same] at kept ⊢
    exact ⟨kept, ih.2⟩

end MemoryBackend
end EntityGraph
