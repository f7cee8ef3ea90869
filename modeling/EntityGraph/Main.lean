import EntityGraph.CommandLine

/-! # The program -/
namespace EntityGraph

/-- The system's words for why a file cannot be read. -/
def readFailure : IO.Error → String
  | .noFileOrDirectory _ _ _ => "No such file or directory (os error 2)"
  | .permissionDenied _ _ _ => "Permission denied (os error 13)"
  | .inappropriateType _ _ _ => "Is a directory (os error 21)"
  | .userError _ => "stream did not contain valid UTF-8"
  | other => toString other

/-- The contents of a file or the reason why it cannot be read. -/
def readText (file : String) : IO (Except String String) := do
  try
    return .ok (← IO.FS.readFile file)
  catch failure =>
    return .error (readFailure failure)

end EntityGraph

def main (args : List String) : IO UInt32 := do
  let output ← EntityGraph.CommandLine.run EntityGraph.readText args
  (← IO.getStdout).putStr (EntityGraph.CommandLine.lineText output.stdout)
  (← IO.getStderr).putStr (EntityGraph.CommandLine.lineText output.stderr)
  return output.code
