import EntityGraph.Definition
import Std.Data.ExtTreeSet

/-! # Save order

Entities are saved principals first. Among the entities whose principals are all placed the one with
the least name comes next; entities that wait for each other in a cycle, or for such entities, follow
at the end in name order. -/
namespace EntityGraph.SaveOrder

/-- The definitions by name; of several with one name the last. -/
def byName (definitions : List Definition) : Std.ExtTreeMap String Definition :=
  Std.ExtTreeMap.ofList (definitions.map fun definition => (definition.name.text, definition))

/-- The other listed entities that a definition refers to. -/
def principals (listed : Std.ExtTreeMap String Definition) (definition : Definition) :
    Std.ExtTreeSet String :=
  Std.ExtTreeSet.ofList <|
    (definition.relationships.map fun relationship => relationship.target.text).filter fun target =>
      target != definition.name.text && listed.contains target

/-- The listed entities that refer to a principal. -/
def dependents (listed : Std.ExtTreeMap String Definition) (definitions : List Definition)
    (principal : String) : Std.ExtTreeSet String :=
  Std.ExtTreeSet.ofList <|
    (definitions.filter fun definition => (principals listed definition).contains principal).map
      fun definition => definition.name.text

/-- How many principals each entity waits for. -/
def waiting (listed : Std.ExtTreeMap String Definition) (definitions : List Definition) :
    Std.ExtTreeMap String Nat :=
  listed.map fun name _ =>
    ((definitions.filter fun definition => definition.name.text == name).map fun definition =>
      (principals listed definition).size).foldr (· + ·) 0

/-- The entities that still wait, and those that are ready to be placed. -/
structure State where
  waiting : Std.ExtTreeMap String Nat
  ready : Std.ExtTreeSet String
  deriving DecidableEq

/-- One principal of an entity has been placed. -/
def State.release (state : State) (dependent : String) : State :=
  match state.waiting[dependent]? with
  | none => state
  | some count =>
    { waiting := state.waiting.insert dependent (count - 1)
      ready := if count - 1 = 0 then state.ready.insert dependent else state.ready }

/-- Places ready entities, the least name first. The fuel bounds how many. -/
def place (dependents : String → Std.ExtTreeSet String) : Nat → State → List String
  | 0, _ => []
  | fuel + 1, state =>
    match state.ready.toList with
    | [] => []
    | name :: _ =>
      let placed := { state with ready := state.ready.erase name }
      name :: place dependents fuel ((dependents name).toList.foldl State.release placed)

/-- The names in save order. -/
def names (definitions : List Definition) : List String :=
  let listed := byName definitions
  let waiting := waiting listed definitions
  let ready := Std.ExtTreeSet.ofList ((waiting.toList.filter fun entry => entry.2 == 0).map Prod.fst)
  let placed := place (dependents listed definitions) listed.size ⟨waiting, ready⟩
  placed ++ listed.keys.filter fun name => !placed.contains name

end SaveOrder

/-- The definitions in the order in which a save writes their rows. -/
def saveOrder (definitions : List Definition) : List Definition :=
  (SaveOrder.names definitions).filterMap fun name => (SaveOrder.byName definitions)[name]?

end EntityGraph
