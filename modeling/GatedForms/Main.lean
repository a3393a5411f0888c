import GatedForms.CommandLine.Execute

/-! # The program

Reads the files and variables that a command line may need, runs it, and prints what comes of it.
-/

namespace GatedForms

/-- A file with its content; nothing if it cannot be read. -/
def readFile (file : String) : IO (Option (String × String)) := do
  try
    let content ← IO.FS.readFile file
    return some (file, content)
  catch _ => return none

/-- A variable with its value; nothing if it is not set. -/
def readVariable (name : String) : IO (Option (String × String)) := do
  let value ← IO.getEnv name
  return value.map fun v => (name, v)

/-- What a command line may need of the world. -/
def lookAround (arguments : List String) : IO Surroundings := do
  let names := match Invocation.parse arguments with
    | .ok invocation => invocation.files
    | .error _ => []
  let files ← names.filterMapM readFile
  let environment ← Settings.variableNames.filterMapM readVariable
  return ⟨files, environment⟩

end GatedForms

/-- Run the program for its arguments and answer its exit code. -/
def main (arguments : List String) : IO UInt32 := do
  let surroundings ← GatedForms.lookAround arguments
  let result := GatedForms.ProgramResult.run surroundings arguments
  IO.print result.output
  for complaint in result.complaints do
    IO.eprintln complaint
  return result.exitCode.toUInt32
