import EntityGraph.Change.Validation
import EntityGraph.SaveOrder

/-! # Command line

`check` reads a batch of changes against a catalog and checks every change; `order` lists the entities
in save order. The way files are read is a parameter, so a run is a pure function of its arguments and
of the contents of the files. -/
namespace EntityGraph.CommandLine

/-- What a run prints, and its exit code. -/
structure Output where
  stdout : List String := []
  stderr : List String := []
  code : UInt32
  deriving DecidableEq, Repr

def succeed (lines : List String) : Output := { stdout := lines, code := 0 }

def fail (lines : List String) : Output := { stderr := lines, code := 1 }

def lineText (lines : List String) : String := String.join (lines.map fun line => line ++ "\n")

def version : String := "rowgraph v0.1.0"

def help : List String := [
  "rowgraph - identity-mapped object graph tools",
  "",
  "Usage: rowgraph [OPTIONS] COMMAND",
  "",
  "Commands:",
  "  check CHANGES          Decode and validate a JSON change batch",
  "  order                  Print entities in save order, principals first",
  "",
  "Options:",
  "  -c, --catalog FILE     Catalog JSON file (required)",
  "  -v, --verbose          Enable debug logging (or set RUST_LOG)",
  "  -h, --help             Show this help message",
  "  --version              Show version",
  "",
  "Examples:",
  "  rowgraph check --catalog shop.json batch.json",
  "  rowgraph order --catalog shop.json"]

structure Arguments where
  catalog : Option String
  positional : List String
  deriving DecidableEq, Repr

/-- Reads options and positional arguments; some options end the run at once. -/
def readArguments (arguments : Arguments) : List String → Except Output Arguments
  | [] => .ok arguments
  | arg :: rest =>
    if arg == "-c" || arg == "--catalog" then
      match rest with
      | [] => .ok arguments
      | file :: rest => readArguments { arguments with catalog := some file } rest
    else if arg == "-v" || arg == "--verbose" then readArguments arguments rest
    else if arg == "-h" || arg == "--help" then .error (succeed help)
    else if arg == "--version" then .error (succeed [version])
    else if arg.startsWith "-" then .error (fail [s!"Unknown option: {arg}"])
    else readArguments { arguments with positional := arguments.positional ++ [arg] } rest

inductive Command where
  | check (catalog changes : String)
  | order (catalog : String)
  deriving DecidableEq, Repr

def readCommand (arguments : Arguments) : Except String Command :=
  match arguments.positional, arguments.catalog with
  | [], _ => .error "No command given"
  | _ :: _, none => .error "Missing --catalog FILE"
  | ["check", changes], some catalog => .ok (.check catalog changes)
  | "check" :: _, some _ => .error "Usage: rowgraph check --catalog FILE CHANGES"
  | ["order"], some catalog => .ok (.order catalog)
  | "order" :: _, some _ => .error "Usage: rowgraph order --catalog FILE"
  | other :: _, some _ => .error s!"Unknown command: {other}"

/-- The line of every valid change, up to the first that is not valid, and the complaint about it. -/
def checkChanges (catalog : Catalog) (index : Nat) : List Change → List String × Option String
  | [] => ([], none)
  | change :: changes =>
    match change.validate catalog with
    | .error e => ([], some s!"change {index}: {e.message}")
    | .ok () =>
      let (lines, complaint) := checkChanges catalog (index + 1) changes
      (change.display :: lines, complaint)

/-- How many changes there are of each kind. -/
def summary (changes : List Change) : String :=
  let counts := ChangeKind.all.filterMap fun kind =>
    let count := (changes.filter fun change => change.kind == kind).length
    if count = 0 then none else some s!"{count} {kind.name}"
  if counts.isEmpty then "(0 changes)"
  else s!"({changes.length} changes: " ++ ", ".intercalate counts ++ ")"

def complain (lines : List String) (complaint : String) : Output :=
  { stdout := lines, stderr := [s!"Error: {complaint}"], code := 1 }

def checkOutput (catalog : Catalog) (text : String) : Output :=
  match Change.decodeText (some catalog) text with
  | .error e => complain [] e.message
  | .ok changes =>
    match checkChanges catalog 0 changes with
    | (lines, some complaint) => complain lines complaint
    | (lines, none) => succeed (lines ++ [summary changes])

def orderOutput (catalog : Catalog) : Output :=
  succeed ((saveOrder catalog.definitions).map fun definition => definition.name.text)

/-- A catalog from the contents of a file, or from the reason why it could not be read. -/
def readCatalog (file : String) : Except String String → Except SchemaError Catalog
  | .ok text => Catalog.ofJson text
  | .error reason => .error (.load s!"{file}: {reason}")

variable {m : Type → Type} [Monad m]

/-- Runs a command. `read` gives the contents of a file or the reason why it cannot be read. -/
def Command.run (read : String → m (Except String String)) : Command → m Output
  | .order file => do
    match readCatalog file (← read file) with
    | .error e => return complain [] e.message
    | .ok catalog => return orderOutput catalog
  | .check file changes => do
    match readCatalog file (← read file) with
    | .error e => return complain [] e.message
    | .ok catalog =>
      match ← read changes with
      | .error reason => return complain [] reason
      | .ok text => return checkOutput catalog text

def run (read : String → m (Except String String)) (args : List String) : m Output := do
  match readArguments ⟨none, []⟩ args with
  | .error output => return output
  | .ok arguments =>
    match readCommand arguments with
    | .error complaint => return fail [complaint, "Try 'rowgraph --help' for usage."]
    | .ok command => command.run read

end EntityGraph.CommandLine
