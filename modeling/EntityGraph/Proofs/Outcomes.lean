import EntityGraph.Value
import Mathlib.Data.List.Forall2
import Mathlib.Tactic.Common
import Std.Data.DTreeMap.Internal.WF.Lemmas

/-! # Outcomes and finite maps

When a computation that may fail succeeds, and what a map holds that is made from a list of entries. -/
namespace EntityGraph

section Outcome
variable {ε ε' α β : Type}

theorem pure_eq_ok_iff {a b : α} : (pure a : Except ε α) = .ok b ↔ b = a :=
  ⟨fun h => (Except.ok.inj h).symm, fun h => congrArg Except.ok h.symm⟩

theorem bind_eq_ok_iff {x : Except ε α} {f : α → Except ε β} {b : β} :
    (x >>= f) = .ok b ↔ ∃ a, x = .ok a ∧ f a = .ok b := by
  cases x with
  | error e => simp [bind, Except.bind]
  | ok a => simp [bind, Except.bind]

/-- A check that is followed by a computation. -/
theorem check_eq_ok_iff {x : Except ε Unit} {f : Unit → Except ε β} {b : β} :
    (x >>= f) = .ok b ↔ x = .ok () ∧ f () = .ok b := by
  rw [bind_eq_ok_iff]
  exact ⟨fun ⟨_, h⟩ => h, fun h => ⟨(), h⟩⟩

theorem map_eq_ok_iff {x : Except ε α} {f : α → β} {b : β} :
    x.map f = .ok b ↔ ∃ a, x = .ok a ∧ f a = b := by
  cases x <;> simp [Except.map]

theorem mapError_eq_ok_iff {x : Except ε α} {f : ε → ε'} {a : α} :
    x.mapError f = .ok a ↔ x = .ok a := by
  cases x <;> simp [Except.mapError]

theorem bind_eq_error_iff {x : Except ε α} {f : α → Except ε β} {e : ε} :
    (x >>= f) = .error e ↔ x = .error e ∨ ∃ a, x = .ok a ∧ f a = .error e := by
  cases x <;> simp [bind, Except.bind]

theorem bind_eq_error_of_ok {x : Except ε α} {f : α → Except ε β} {a : α} {e : ε} (ok : x = .ok a)
    (refused : (x >>= f) = .error e) : f a = .error e := by
  rwa [ok] at refused

theorem map_eq_error_iff {x : Except ε α} {f : α → β} {e : ε} : x.map f = .error e ↔ x = .error e := by
  cases x <;> simp [Except.map]

theorem mapError_eq_error_iff {x : Except ε α} {f : ε → ε'} {e' : ε'} :
    x.mapError f = .error e' ↔ ∃ e, x = .error e ∧ f e = e' := by
  cases x <;> simp [Except.mapError]

theorem isOk_mapError {x : Except ε α} {f : ε → ε'} : (x.mapError f).isOk = x.isOk := by
  cases x <;> rfl

theorem toOption_eq_some_iff {x : Except ε α} {a : α} : x.toOption = some a ↔ x = .ok a := by
  cases x <;> simp [Except.toOption]

end Outcome

/-- What is found by a name is an element with this name. -/
theorem mem_of_find?_name {α : Type} {name : α → String} {elements : List α} {sought : String} {element : α}
    (found : (elements.find? fun other => name other == sought) = some element) :
    element ∈ elements ∧ name element = sought :=
  ⟨List.mem_of_find?_eq_some found, beq_iff_eq.1 (List.find?_some found :)⟩

/-- Each element of a list has its partner. -/
theorem exists_mem_of_forall₂ {α β : Type} {R : α → β → Prop} {as : List α} {bs : List β}
    (all : List.Forall₂ R as bs) {a : α} (member : a ∈ as) : ∃ b ∈ bs, R a b := by
  induction all with
  | nil => cases member
  | @cons first partner _ _ related _ ih =>
    rcases List.mem_cons.1 member with rfl | later
    · exact ⟨partner, by simp, related⟩
    · obtain ⟨b, found, related⟩ := ih later
      exact ⟨b, by simp [found], related⟩

/-- A list has a list of partners if and only if each of its elements has one. -/
theorem exists_forall₂_iff {α β : Type} {R : α → β → Prop} {as : List α} :
    (∃ bs, List.Forall₂ R as bs) ↔ ∀ a ∈ as, ∃ b, R a b := by
  induction as with
  | nil => simp
  | cons a as ih =>
    rw [List.forall_mem_cons, ← ih]
    constructor
    · rintro ⟨_, _ | ⟨related, others⟩⟩
      exact ⟨⟨_, related⟩, _, others⟩
    · rintro ⟨⟨b, related⟩, bs, others⟩
      exact ⟨b :: bs, .cons related others⟩

section Maps
variable {κ β : Type} [Ord κ] [Std.TransOrd κ]

theorem mem_iff_exists_getElem? {m : Std.ExtTreeMap κ β} {k : κ} : k ∈ m ↔ ∃ v, m[k]? = some v := by
  rw [Std.ExtTreeMap.mem_iff_isSome_getElem?, Option.isSome_iff_exists]

/-- What a map made from a list holds was in the list. -/
theorem mem_of_getElem?_ofList [Std.LawfulEqOrd κ] [DecidableEq κ] {entries : List (κ × β)} {k : κ} {v : β}
    (h : (Std.ExtTreeMap.ofList entries)[k]? = some v) : (k, v) ∈ entries := by
  rw [Std.ExtTreeMap.ofList_eq_insertMany_empty, Std.ExtTreeMap.getElem?_insertMany_list] at h
  simp only [Std.ExtTreeMap.getElem?_empty, Option.or_none,
    List.findSomeRev?_eq_findSome?_reverse] at h
  obtain ⟨entry, member, found⟩ := List.exists_of_findSome?_eq_some h
  simp at found
  grind

/-- Making a map from its own entries gives it back. -/
theorem ofList_toList [Std.LawfulEqOrd κ] [DecidableEq κ]
    (m : Std.ExtTreeMap κ β) : Std.ExtTreeMap.ofList m.toList = m := by
  apply Std.ExtTreeMap.ext_getElem?
  intro k
  cases h : m[k]? with
  | none =>
    apply Std.ExtTreeMap.getElem?_ofList_of_contains_eq_false
    simp_all
  | some v =>
    apply Std.ExtTreeMap.getElem?_ofList_of_mem (k := k) (by simp)
    · exact Std.ExtTreeMap.distinct_keys_toList
    · simpa using h

/-- Maps made from lists that agree entry by entry agree key by key, also where an entry hides another. -/
theorem rel_getElem?_ofList [Std.LawfulEqOrd κ] [DecidableEq κ] {γ : Type} {R : κ → β → γ → Prop}
    {entries : List (κ × β)} {results : List (κ × γ)}
    (each : List.Forall₂ (fun entry result => entry.1 = result.1 ∧ R entry.1 entry.2 result.2) entries results)
    (k : κ) :
    Option.Rel (R k) (Std.ExtTreeMap.ofList entries)[k]? (Std.ExtTreeMap.ofList results)[k]? := by
  simp only [Std.ExtTreeMap.ofList_eq_insertMany_empty, Std.ExtTreeMap.getElem?_insertMany_list,
    Std.ExtTreeMap.getElem?_empty, Option.or_none, List.findSomeRev?_eq_findSome?_reverse]
  have reversed := List.rel_reverse each
  generalize entries.reverse = entries at reversed
  generalize results.reverse = results at reversed
  induction reversed with
  | nil => exact .none
  | @cons entry result _ _ both _ ih =>
    obtain ⟨place, v⟩ := entry
    obtain ⟨_, w⟩ := result
    obtain ⟨rfl, related⟩ := both
    simp only [List.findSome?_cons]
    by_cases here : compare place k = .eq
    · cases Std.compare_eq_iff_eq.1 here
      simpa [here] using Option.Rel.some related
    · simpa [here] using ih

/-- Converting the values of a map one by one gives each key the conversion of its value. -/
theorem getElem?_ofList_of_forall₂ [Std.LawfulEqOrd κ] [DecidableEq κ] {γ : Type} {R : κ → β → γ → Prop}
    {m : Std.ExtTreeMap κ β} {entries : List (κ × γ)}
    (each : List.Forall₂ (fun entry result => entry.1 = result.1 ∧ R entry.1 entry.2 result.2) m.toList entries)
    {k : κ} {v : β} (held : m[k]? = some v) :
    ∃ result, R k v result ∧ (Std.ExtTreeMap.ofList entries)[k]? = some result := by
  have related := rel_getElem?_ofList each k
  rw [ofList_toList, held] at related
  generalize (Std.ExtTreeMap.ofList entries)[k]? = found at related ⊢
  cases related with
  | some related => exact ⟨_, related, rfl⟩

theorem toList_nodup [Std.LawfulEqOrd κ] (s : Std.ExtTreeSet κ) : s.toList.Nodup :=
  Std.ExtTreeSet.distinct_toList.imp fun differ same => differ (Std.compare_eq_iff_eq.2 same)

/-- The values of a map in key order. The library states this of its trees only. -/
theorem values_eq (m : Std.ExtTreeMap κ β) : m.values = m.toList.map Prod.snd := by
  obtain ⟨inner⟩ := m
  induction inner with
  | mk tree =>
    change tree.inner.values = (Std.DTreeMap.Internal.Impl.Const.toList tree.inner).map Prod.snd
    rw [Std.DTreeMap.Internal.Impl.values_eq_map_snd,
      Std.DTreeMap.Internal.Impl.Const.toList_eq_toListModel_map, List.map_map]
    rfl

end Maps
end EntityGraph
