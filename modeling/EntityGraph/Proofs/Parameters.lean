import EntityGraph.Proofs.Typing
import EntityGraph.Proofs.Validity
import EntityGraph.QueryParameters
import Mathlib.Data.List.Nodup

/-! # Query parameters

What the parameters of a query resolve to, and which rows they let through. What is resolved is complete and
typed, so that it resolves to itself. A parameter that is bound to a field compares the value to which it
converts what it is given with the value to which the field has converted it. The two conversions agree just
if the parameter has the type of the field. -/
namespace EntityGraph

/-- A value that is not null has one type. -/
theorem DataType.eq_of_admits {type other : DataType} {value : Value} (present : value.isNull = false)
    (h : type.admits value) (h' : other.admits value) : type = other := by
  cases type <;> cases value <;> cases other <;> simp_all [admits, Value.isNull]

/-- Two types convert a value that is not null to the same value just if they are the same. -/
theorem DataType.eq_iff_of_coerce? {type other : DataType} {value stored converted : Value}
    (present : value.isNull = false) (h : type.coerce? value = some stored)
    (h' : other.coerce? value = some converted) : stored = converted ↔ type = other := by
  constructor
  · rintro rfl
    have kept : stored.isNull = false := (isNull_of_coerce? h).trans present
    exact eq_of_admits kept (admits_of_coerce? h) (admits_of_coerce? h')
  · rintro rfl
    exact Option.some.inj (h.symm.trans h')

namespace Parameter
variable {parameter : Parameter} {supplied : Columns} {value : Value}

/-- The value that a parameter converts, supplied or by default. -/
def given (parameter : Parameter) (supplied : Columns) : Value :=
  supplied[parameter.name]?.getD parameter.default

theorem resolve_eq_ok_iff {entity : String} : parameter.resolve entity supplied = .ok value ↔
    parameter.type.coerce? (parameter.given supplied) = some value := by
  unfold resolve given
  cases converted : parameter.type.coerce? (supplied[parameter.name]?.getD parameter.default) <;>
    simp [converted]

/-- A parameter that is not bound to a field lets every row through, as one does that is null. -/
theorem accepts_of_idle {parameters columns : Columns}
    (idle : parameter.field ≠ none → parameters[parameter.name]? = some .null) :
    parameter.accepts parameters columns = true := by
  unfold accepts
  cases bound : parameter.field with
  | none => rfl
  | some field => simp [idle (by simp [bound]), Value.isNull]

theorem accepts_iff {parameters columns : Columns} {field : String} (bound : parameter.field = some field)
    (held : parameters[parameter.name]? = some value) (present : value.isNull = false) :
    parameter.accepts parameters columns = true ↔ columns[field]? = some value := by
  simp [accepts, bound, held, present]

end Parameter

namespace Definition
variable {definition : Definition} {supplied resolved : Columns} {parameter : Parameter}

theorem resolveEach_eq_ok_iff {parameters : List Parameter} {entries : List (String × Value)} :
    definition.resolveEach supplied parameters = .ok entries ↔
      List.Forall₂ (fun parameter entry => parameter.name = entry.1 ∧
        parameter.type.coerce? (parameter.given supplied) = some entry.2) parameters entries := by
  induction parameters generalizing entries with
  | nil =>
    rw [List.forall₂_nil_left_iff]
    exact pure_eq_ok_iff
  | cons parameter parameters ih =>
    simp only [resolveEach, bind_eq_ok_iff, pure_eq_ok_iff, Parameter.resolve_eq_ok_iff, ih,
      List.forall₂_cons_left_iff]
    constructor
    · rintro ⟨value, converted, rest, others, rfl⟩
      exact ⟨(parameter.name, value), rest, ⟨rfl, converted⟩, others, rfl⟩
    · rintro ⟨⟨_, value⟩, rest, ⟨rfl, converted⟩, others, rfl⟩
      exact ⟨value, converted, rest, others, rfl⟩

theorem resolveEach_names {parameters : List Parameter} {entries : List (String × Value)}
    (h : definition.resolveEach supplied parameters = .ok entries) :
    entries.map Prod.fst = parameters.map Parameter.name := by
  have each := resolveEach_eq_ok_iff.1 h
  clear h
  induction each with
  | nil => rfl
  | cons both _ ih => simp [both.1, ih]

theorem resolveParameters_eq_ok_iff : definition.resolveParameters supplied = .ok resolved ↔
    (∀ name ∈ supplied, (definition.parameter? name).isSome = true) ∧
      ∃ entries, definition.resolveEach supplied definition.parameters = .ok entries ∧
        resolved = .ofList entries := by
  have known : supplied.keys.find? (fun name => (definition.parameter? name).isNone) = none ↔
      ∀ name ∈ supplied, (definition.parameter? name).isSome = true := by
    simp [List.find?_eq_none, Option.isSome_iff_ne_none]
  unfold resolveParameters
  split
  · next name found => simp [← known, found]
  · next none =>
    rw [bind_eq_ok_iff]
    simp only [pure_eq_ok_iff, iff_true_intro (known.1 none), true_and]

/-- Only declared parameters are resolved. -/
theorem parameter?_of_resolved (h : definition.resolveParameters supplied = .ok resolved) {name : String}
    (member : name ∈ resolved) : (definition.parameter? name).isSome = true := by
  obtain ⟨-, entries, hentries, rfl⟩ := resolveParameters_eq_ok_iff.1 h
  obtain ⟨value, held⟩ := mem_iff_exists_getElem?.1 member
  have listed : name ∈ entries.map Prod.fst := List.mem_map.2 ⟨_, mem_of_getElem?_ofList held, rfl⟩
  rw [resolveEach_names hentries] at listed
  obtain ⟨parameter, declared, named⟩ := List.mem_map.1 listed
  rw [parameter?, List.find?_isSome]
  exact ⟨parameter, declared, by simp [named]⟩

/-- Every parameter resolves to what it converts. -/
theorem getElem?_resolved (valid : definition.validate = .ok ())
    (h : definition.resolveParameters supplied = .ok resolved) (declared : parameter ∈ definition.parameters) :
    resolved[parameter.name]? = parameter.type.coerce? (parameter.given supplied) := by
  obtain ⟨-, entries, hentries, rfl⟩ := resolveParameters_eq_ok_iff.1 h
  obtain ⟨⟨_, value⟩, member, rfl, converted⟩ :=
    exists_mem_of_forall₂ (resolveEach_eq_ok_iff.1 hentries) declared
  have distinct : (entries.map Prod.fst).Nodup := by
    rw [resolveEach_names hentries]
    exact (parameters_of_check (validate_eq_ok_iff.1 valid).2.2.2).2.1
  rw [converted]
  refine Std.ExtTreeMap.getElem?_ofList_of_mem (k := parameter.name) (by simp) ?_ member
  rw [List.nodup_iff_pairwise_ne, List.pairwise_map] at distinct
  exact distinct.imp fun differ same => differ (Std.compare_eq_iff_eq.1 same)

/-- Parameters resolve when those that are supplied are declared and convert. -/
theorem exists_resolved (valid : definition.validate = .ok ())
    (supplies : ∀ name value, supplied[name]? = some value → ∃ parameter,
      definition.parameter? name = some parameter ∧ (parameter.type.coerce? value).isSome = true) :
    ∃ resolved, definition.resolveParameters supplied = .ok resolved := by
  obtain ⟨-, distinct, defaults⟩ := parameters_of_check (validate_eq_ok_iff.1 valid).2.2.2
  have each : ∀ parameter ∈ definition.parameters, ∃ entry : String × Value, parameter.name = entry.1 ∧
      parameter.type.coerce? (parameter.given supplied) = some entry.2 := by
    intro parameter declared
    have converts : (parameter.type.coerce? (parameter.given supplied)).isSome = true := by
      unfold Parameter.given
      cases held : supplied[parameter.name]? with
      | none => exact defaults parameter declared
      | some value =>
        obtain ⟨found, named, converts⟩ := supplies _ _ held
        cases (find?_of_distinct distinct declared).symm.trans named
        exact converts
    obtain ⟨value, converted⟩ := Option.isSome_iff_exists.1 converts
    exact ⟨(parameter.name, value), rfl, converted⟩
  obtain ⟨entries, hentries⟩ := exists_forall₂_iff.2 each
  refine ⟨_, resolveParameters_eq_ok_iff.2
    ⟨fun name member => ?_, entries, resolveEach_eq_ok_iff.2 hentries, rfl⟩⟩
  obtain ⟨value, held⟩ := mem_iff_exists_getElem?.1 member
  obtain ⟨parameter, named, -⟩ := supplies name value held
  simp [named]

/-- A parameter holds what it converts to. -/
theorem exists_value_of_resolved (valid : definition.validate = .ok ())
    (h : definition.resolveParameters supplied = .ok resolved) (declared : parameter ∈ definition.parameters) :
    ∃ value, resolved[parameter.name]? = some value ∧
      parameter.type.coerce? (parameter.given supplied) = some value := by
  obtain ⟨-, entries, hentries, -⟩ := resolveParameters_eq_ok_iff.1 h
  obtain ⟨⟨_, value⟩, -, -, converted⟩ := exists_mem_of_forall₂ (resolveEach_eq_ok_iff.1 hentries) declared
  exact ⟨value, (getElem?_resolved valid h declared).trans converted, converted⟩

theorem mem_resolved_iff (valid : definition.validate = .ok ())
    (h : definition.resolveParameters supplied = .ok resolved) {name : String} :
    name ∈ resolved ↔ ∃ parameter ∈ definition.parameters, parameter.name = name := by
  constructor
  · intro member
    obtain ⟨parameter, found⟩ := Option.isSome_iff_exists.1 (parameter?_of_resolved h member)
    exact ⟨parameter, mem_of_find?_name found⟩
  · rintro ⟨parameter, declared, rfl⟩
    obtain ⟨value, held, -⟩ := exists_value_of_resolved valid h declared
    exact mem_iff_exists_getElem?.2 ⟨value, held⟩

/-- Parameters resolve if and only if those that are supplied are declared and convert. -/
theorem exists_resolved_iff (valid : definition.validate = .ok ()) :
    (∃ resolved, definition.resolveParameters supplied = .ok resolved) ↔
      ∀ (name : String) (value : Value), supplied[name]? = some value → ∃ parameter ∈ definition.parameters,
        parameter.name = name ∧ (parameter.type.coerce? value).isSome = true := by
  have distinct := (parameters_of_check (validate_eq_ok_iff.1 valid).2.2.2).2.1
  constructor
  · rintro ⟨resolved, h⟩ name value held
    have known := (resolveParameters_eq_ok_iff.1 h).1 name (mem_iff_exists_getElem?.2 ⟨value, held⟩)
    obtain ⟨parameter, found⟩ := Option.isSome_iff_exists.1 known
    obtain ⟨declared, named⟩ := mem_of_find?_name found
    obtain ⟨converted, -, converts⟩ := exists_value_of_resolved valid h declared
    rw [Parameter.given, named, held, Option.getD_some] at converts
    exact ⟨parameter, declared, named, by simp [converts]⟩
  · intro supplies
    refine exists_resolved valid fun name value held => ?_
    obtain ⟨parameter, declared, rfl, converts⟩ := supplies name value held
    exact ⟨parameter, find?_of_distinct distinct declared, converts⟩

/-- What was resolved is of the declared types, so that it is resolved to itself. -/
theorem resolveParameters_idem (valid : definition.validate = .ok ())
    (h : definition.resolveParameters supplied = .ok resolved) :
    definition.resolveParameters resolved = .ok resolved := by
  have settled : ∀ parameter ∈ definition.parameters, ∃ value, resolved[parameter.name]? = some value ∧
      parameter.type.coerce? value = some value := by
    intro parameter declared
    obtain ⟨value, held, converted⟩ := exists_value_of_resolved valid h declared
    exact ⟨value, held, DataType.coerce?_of_admits (DataType.admits_of_coerce? converted)⟩
  obtain ⟨again, hagain⟩ := (exists_resolved_iff valid).2 fun name value held => by
    obtain ⟨parameter, declared, rfl⟩ :=
      (mem_resolved_iff valid h).1 (mem_iff_exists_getElem?.2 ⟨value, held⟩)
    obtain ⟨value', held', converted⟩ := settled parameter declared
    cases held.symm.trans held'
    exact ⟨parameter, declared, rfl, by simp [converted]⟩
  have same : again = resolved := by
    refine Std.ExtTreeMap.ext_getElem? fun name => ?_
    by_cases listed : ∃ parameter ∈ definition.parameters, parameter.name = name
    · obtain ⟨parameter, declared, rfl⟩ := listed
      obtain ⟨value, held, converted⟩ := settled parameter declared
      rw [getElem?_resolved valid hagain declared, Parameter.given, held, Option.getD_some, converted]
    · have absent := listed ∘ (mem_resolved_iff valid h).1
      have absent' := listed ∘ (mem_resolved_iff valid hagain).1
      rw [Std.ExtTreeMap.getElem?_eq_none absent, Std.ExtTreeMap.getElem?_eq_none absent']
  rw [hagain, same]

/-- Names are checked before values, and the least of those that are not declared is reported. -/
theorem resolveParameters_eq_unknown {name : String} (member : name ∈ supplied)
    (undeclared : ∀ parameter ∈ definition.parameters, parameter.name ≠ name) :
    ∃ unknown ∈ supplied, (∀ parameter ∈ definition.parameters, parameter.name ≠ unknown) ∧
      (compare unknown name).isLE = true ∧
      definition.resolveParameters supplied = .error (.unknown definition.name.text unknown) := by
  have isUnknown : ∀ name, (definition.parameter? name).isNone = true ↔
      ∀ parameter ∈ definition.parameters, parameter.name ≠ name := by
    simp [parameter?]
  unfold resolveParameters
  cases found : supplied.keys.find? fun name => (definition.parameter? name).isNone with
  | none =>
    have known := List.find?_eq_none.1 found name (Std.ExtTreeMap.mem_keys.2 member)
    exact absurd ((isUnknown name).2 undeclared) known
  | some unknown =>
    obtain ⟨fails, before, after, split, earlier⟩ := List.find?_eq_some_iff_append.1 found
    refine ⟨unknown, ?_, (isUnknown unknown).1 fails, ?_, rfl⟩
    · rw [← Std.ExtTreeMap.mem_keys, split]
      simp
    · have ordered := Std.ExtTreeMap.ordered_keys (t := supplied)
      have listed := Std.ExtTreeMap.mem_keys.2 member
      rw [split, List.pairwise_append, List.pairwise_cons] at ordered
      rw [split, List.mem_append, List.mem_cons] at listed
      rcases listed with known | rfl | later
      · have known := earlier name known
        simp [(isUnknown name).2 undeclared] at known
      · simp
      · simp [ordered.2.1.1 name later]

/-- Parameters resolve if and only if those that are supplied are declared and convert to their types. What
they resolve to has a value of the declared type for every declared parameter, what is supplied or else the
default, and resolves to itself. A name that is not declared is reported whatever the values are. -/
theorem resolveParameters_complete (valid : definition.validate = .ok ()) (supplied : Columns) :
    ((∃ resolved, definition.resolveParameters supplied = .ok resolved) ↔
      ∀ (name : String) (value : Value), supplied[name]? = some value → ∃ parameter ∈ definition.parameters,
        parameter.name = name ∧ (parameter.type.coerce? value).isSome = true) ∧
    (∀ resolved, definition.resolveParameters supplied = .ok resolved →
      (∀ name, name ∈ resolved ↔ ∃ parameter ∈ definition.parameters, parameter.name = name) ∧
      (∀ parameter ∈ definition.parameters, ∃ value, resolved[parameter.name]? = some value ∧
        parameter.type.admits value = true ∧
        parameter.type.coerce? (supplied[parameter.name]?.getD parameter.default) = some value) ∧
      definition.resolveParameters resolved = .ok resolved) ∧
    ∀ name ∈ supplied, (∀ parameter ∈ definition.parameters, parameter.name ≠ name) →
      ∃ unknown ∈ supplied, (∀ parameter ∈ definition.parameters, parameter.name ≠ unknown) ∧
        (compare unknown name).isLE = true ∧
        definition.resolveParameters supplied = .error (.unknown definition.name.text unknown) := by
  refine ⟨exists_resolved_iff valid, fun resolved h => ⟨fun name => mem_resolved_iff valid h, ?_,
    resolveParameters_idem valid h⟩, fun name member => resolveParameters_eq_unknown member⟩
  intro parameter declared
  obtain ⟨value, held, converted⟩ := exists_value_of_resolved valid h declared
  exact ⟨value, held, DataType.admits_of_coerce? converted, converted⟩

/-- A query that gives one parameter resolves this one to what is given and the others to their defaults. -/
theorem exists_resolved_one (valid : definition.validate = .ok ()) (declared : parameter ∈ definition.parameters)
    {value : Value} (accepted : (parameter.type.coerce? value).isSome = true) :
    ∃ resolved, definition.resolveParameters (.ofList [(parameter.name, value)]) = .ok resolved ∧
      resolved[parameter.name]? = parameter.type.coerce? value ∧
      ∀ other ∈ definition.parameters, other.name ≠ parameter.name →
        resolved[other.name]? = other.type.coerce? other.default := by
  have distinct := (parameters_of_check (validate_eq_ok_iff.1 valid).2.2.2).2.1
  have supplied : ∀ other : String, (Std.ExtTreeMap.ofList [(parameter.name, value)] : Columns)[other]? =
      if parameter.name = other then some value else none := by
    intro other
    simp [Std.ExtTreeMap.ofList_singleton, Std.ExtTreeMap.getElem?_insert]
  obtain ⟨resolved, hresolved⟩ := @exists_resolved definition _ valid fun other found hfound => by
    rw [supplied] at hfound
    split_ifs at hfound with same
    cases hfound
    exact ⟨parameter, same ▸ find?_of_distinct distinct declared, accepted⟩
  refine ⟨resolved, hresolved, ?_, fun other listed named => ?_⟩
  · rw [getElem?_resolved valid hresolved declared, Parameter.given, supplied, if_pos rfl, Option.getD_some]
  · rw [getElem?_resolved valid hresolved listed, Parameter.given, supplied, if_neg (Ne.symm named),
      Option.getD_none]

theorem matchesParameters_iff {columns : Columns} : definition.matchesParameters columns resolved = true ↔
    ∀ parameter ∈ definition.parameters, parameter.accepts resolved columns = true := by
  simp [matchesParameters]

/-- A bound parameter lets a row through that was given the same value for its field just if it has the
type of the field, when no other bound parameter filters. -/
theorem matches_bound_iff (valid : definition.validate = .ok ()) (declared : parameter ∈ definition.parameters)
    {name : String} (bound : parameter.field = some name) {field : Field}
    (typed : definition.field? name = some field) {value : Value} (present : value.isNull = false)
    (accepted : (parameter.type.coerce? value).isSome = true)
    (others : ∀ other ∈ definition.parameters, other.name ≠ parameter.name → other.field ≠ none →
      other.type.coerce? other.default = some .null)
    {identity : Nat} {given : Columns} {row : Row} (held : given[name]? = some value)
    (built : Row.ofColumns definition identity given = .ok row) :
    ∃ resolved, definition.resolveParameters (.ofList [(parameter.name, value)]) = .ok resolved ∧
      (definition.matchesParameters row.columns resolved = true ↔ field.type = parameter.type) := by
  have distinct := (parameters_of_check (validate_eq_ok_iff.1 valid).2.2.2).2.1
  obtain ⟨resolved, hresolved, own, defaults⟩ := exists_resolved_one valid declared accepted
  obtain ⟨converted, hconverted⟩ := Option.isSome_iff_exists.1 accepted
  obtain ⟨columns, hcolumns, rfl⟩ := Row.ofColumns_eq_ok_iff.1 built
  obtain ⟨stored, hstored, stands⟩ := rowColumns_given hcolumns held
  obtain ⟨_, typed', hstored⟩ := coerceField_eq_ok_iff.1 hstored
  cases typed.symm.trans typed'
  have passes : parameter.accepts resolved columns = true ↔ field.type = parameter.type := by
    rw [Parameter.accepts_iff bound (own.trans hconverted)
        ((DataType.isNull_of_coerce? hconverted).trans present),
      stands, Option.some.injEq, DataType.eq_iff_of_coerce? present hstored hconverted]
  refine ⟨resolved, hresolved, matchesParameters_iff.trans ⟨fun all => passes.1 (all parameter declared), ?_⟩⟩
  intro same other listed
  by_cases named : other.name = parameter.name
  · cases List.inj_on_of_nodup_map distinct listed declared named
    exact passes.2 same
  · -- the others are null, so they filter nothing
    exact Parameter.accepts_of_idle fun filters =>
      (defaults other listed named).trans (others other listed named filters)

end Definition

namespace Parcel

def parcelName : EntityName := ⟨"parcel", by decide +kernel⟩

def weight (type : DataType) : Parameter := ⟨"weight", type, .null, some "weight"⟩

def number : Parameter := ⟨"number", .integer, .null, some "id"⟩

/-- The weight of a parcel is a number with a fraction. The parameter of the query may have another type. -/
def definition (type : DataType) : Definition where
  name := parcelName
  key := "id"
  fields := [⟨"id", .integer, true, none, none⟩, ⟨"weight", .float, false, none, none⟩]
  relationships := []
  parameters := [weight type, number]
  readOnly := false
  description := none

/-- A parcel whose weight is given as a whole number. -/
def given : Columns := .ofList [("id", Value.integer 1), ("weight", .integer 2)]

def stored : Columns := .ofList [("id", Value.integer 1), ("weight", .float (.ofInt 2))]

/-- The parcels of weight two. -/
def wanted : Columns := .ofList [("weight", Value.integer 2)]

theorem definition_valid : (definition .float).validate = .ok () ∧ (definition .integer).validate = .ok () := by
  decide +kernel

theorem definition_stores : given["weight"]? = some (.integer 2) ∧
    Row.ofColumns (definition .float) 0 given = .ok ⟨definition .float, 0, stored⟩ ∧
    Row.ofColumns (definition .integer) 0 given = .ok ⟨definition .integer, 0, stored⟩ := by
  decide +kernel

theorem number_idle (type : DataType) : ∀ other ∈ (definition type).parameters, other.name ≠ "weight" →
    other.field ≠ none → other.type.coerce? other.default = some .null := by
  simp [definition, weight, number, DataType.coerce?, DataType.admits]

/-- A parcel is found by its weight. -/
theorem found_by_weight : ∃ resolved, (definition .float).resolveParameters wanted = .ok resolved ∧
    (definition .float).matchesParameters stored resolved = true := by
  have declared : weight .float ∈ (definition .float).parameters := by simp [definition]
  have typed : (definition .float).field? "weight" = some ⟨"weight", .float, false, none, none⟩ := by
    decide +kernel
  obtain ⟨resolved, hresolved, selects⟩ :=
    Definition.matches_bound_iff definition_valid.1 declared rfl typed rfl rfl (number_idle .float)
      definition_stores.1 definition_stores.2.1
  exact ⟨resolved, hresolved, selects.2 rfl⟩

/-- A parcel is not found by the weight that it was given, where the parameter takes whole numbers. -/
theorem missed_by_weight : (definition .integer).validate = .ok () ∧
    weight .integer ∈ (definition .integer).parameters ∧ (weight .integer).field = some "weight" ∧
    given["weight"]? = some (.integer 2) ∧ (DataType.integer.coerce? (.integer 2)).isSome = true ∧
    (∀ other ∈ (definition .integer).parameters, other.name ≠ "weight" → other.field ≠ none →
      other.type.coerce? other.default = some .null) ∧
    ∃ row resolved, Row.ofColumns (definition .integer) 0 given = .ok row ∧
      (definition .integer).resolveParameters wanted = .ok resolved ∧
      (definition .integer).matchesParameters row.columns resolved = false := by
  have run : (definition .integer).resolveParameters wanted =
        .ok (.ofList [("weight", Value.integer 2), ("number", .null)]) ∧
      (definition .integer).matchesParameters stored (.ofList [("weight", Value.integer 2), ("number", .null)]) =
        false := by
    decide +kernel
  exact ⟨definition_valid.2, by simp [definition], rfl, definition_stores.1, rfl, number_idle .integer, _, _,
    definition_stores.2.2, run⟩

/-- A parameter that parcels do not have, and a weight that is no number. -/
def painted : Columns := .ofList [("colour", Value.text "red"), ("weight", .boolean true)]

theorem wanted_resolved :
    (∃ resolved, (definition .float).resolveParameters wanted = .ok resolved ∧
      resolved["weight"]? = some (.float (.ofInt 2)) ∧ resolved["number"]? = some .null ∧
      (definition .float).resolveParameters resolved = .ok resolved) ∧
    (definition .float).resolveParameters painted = .error (.unknown "parcel" "colour") := by
  obtain ⟨resolves, resolution, -⟩ := Definition.resolveParameters_complete definition_valid.1 wanted
  have declared : weight .float ∈ (definition .float).parameters ∧ number ∈ (definition .float).parameters := by
    simp [definition]
  obtain ⟨resolved, hresolved⟩ := resolves.2 fun name value held => by
    cases List.mem_singleton.1 (mem_of_getElem?_ofList held)
    exact ⟨weight .float, declared.1, rfl, rfl⟩
  obtain ⟨-, values, again⟩ := resolution resolved hresolved
  obtain ⟨heavy, heldWeight, -, weighed⟩ := values _ declared.1
  obtain ⟨any, heldNumber, -, counted⟩ := values _ declared.2
  cases weighed
  cases counted
  refine ⟨⟨resolved, hresolved, heldWeight, heldNumber, again⟩, ?_⟩
  obtain ⟨unknown, member, undeclared, -, refused⟩ :=
    (Definition.resolveParameters_complete definition_valid.1 painted).2.2 "colour" (by simp [painted])
      (by simp [definition, weight, number])
  have painted_names : unknown = "colour" ∨ unknown = "weight" := by simpa [painted] using member
  rcases painted_names with rfl | rfl
  · exact refused
  · exact absurd rfl (undeclared _ declared.1)

end Parcel
end EntityGraph
