/-! # Entity names

Plain identifiers or paths of segments between slashes. -/
namespace EntityGraph

inductive InvalidName where
  | empty
  | tooLong (bytes : Nat)
  | invalidStart (c : Char)
  | invalidCharacter (c : Char) (position : Nat)
  | invalidPath (path : String)
  deriving DecidableEq, Repr

namespace InvalidName

def message : InvalidName → String
  | .empty => "name cannot be empty"
  | .tooLong bytes => s!"name too long: {bytes} characters"
  | .invalidStart c => s!"name cannot start with '{c}'"
  | .invalidCharacter c position => s!"invalid character '{c}' at position {position}"
  | .invalidPath path => s!"invalid path: '{path}'"

end InvalidName

namespace EntityName

/-- Letters and digits of a name are ASCII. -/
def isLetter (c : Char) : Bool := c.isAlpha

def isNameChar (c : Char) : Bool := c.isAlphanum || c == '_' || c == '-' || c == '.' || c == '/'

/-- The segments of a path. -/
def segments : List Char → List (List Char)
  | [] => [[]]
  | c :: cs =>
    if c = '/' then [] :: segments cs
    else
      match segments cs with
      | [] => [[c]]
      | segment :: rest => (c :: segment) :: rest

/-- A name has 1 to 128 bytes, starts with a letter or underscore, and has neither empty segments nor
segments that lead upwards. -/
def check (name : String) : Except InvalidName Unit :=
  match name.toList with
  | [] => .error .empty
  | first :: rest =>
    if 128 < name.utf8ByteSize then .error (.tooLong name.utf8ByteSize)
    else if !(isLetter first || first == '_') then .error (.invalidStart first)
    else
      match (first :: rest).zipIdx.find? fun entry => !isNameChar entry.1 with
      | some (c, position) => .error (.invalidCharacter c position)
      | none =>
        if (segments (first :: rest)).any fun s => s.isEmpty || s == ['.', '.'] then
          .error (.invalidPath name)
        else .ok ()

end EntityName

structure EntityName where
  text : String
  valid : EntityName.check text = .ok ()
  deriving DecidableEq, Repr

namespace EntityName

def ofString (name : String) : Except InvalidName EntityName :=
  match h : check name with
  | .ok () => .ok ⟨name, h⟩
  | .error e => .error e

@[ext]
theorem ext {a b : EntityName} (h : a.text = b.text) : a = b := by
  cases a; cases b; cases h; rfl

theorem ofString_text (name : EntityName) : ofString name.text = .ok name := by
  unfold ofString
  split
  · rfl
  · next h => exact absurd (name.valid.symm.trans h) nofun

theorem text_of_ofString {s : String} {name : EntityName} (h : ofString s = .ok name) :
    name.text = s := by
  unfold ofString at h
  split at h
  · cases h; rfl
  · cases h

/-- The last segment. -/
def shortName (name : EntityName) : String :=
  String.ofList ((segments name.text.toList).getLastD [])

end EntityName
end EntityGraph
