import RestGraph.CommandLine.Run

/-!
# The program

Reading and writing around a run: arguments, environment, files and the standard streams.
-/

namespace RestGraph.Program

def variableNames : List String :=
  CommandLine.Parameter.all.filterMap CommandLine.Parameter.environment? ++
    ["SOURCE_NAME", "BASE_URL", "HEADERS", "FEDERATION_VERSION", "CONNECT_VERSION",
      "PAGE_SIZE"].map ("CONNECTOR_GEN_" ++ ·)

def environment : IO (String → Option String) := do
  let found ← variableNames.filterMapM fun name => do
    return (← IO.getEnv name).map fun value => (name, value)
  return fun name => found.lookup name

/-- The text of a file, unless it cannot be read or is no text. -/
def readFile (file : String) : IO (Option String) := do
  try return some (← IO.FS.readFile file)
  catch _ => return none

/-- The texts of the files that a run may look at. -/
def files (a : CommandLine.Arguments) : IO (String → Option String) := do
  let names := a.source :: a.selections.toList
  let found ← names.mapM fun name => return (name, ← readFile name)
  return fun name => (found.lookup name).join

/-- Let a person choose, and answer with what was typed. -/
partial def converse (p : Picker) (before : String) : IO String := do
  IO.eprint p.prompt
  let line ← (← IO.getStdin).getLine
  let typed := before ++ line
  if line.isEmpty then return typed
  else match Picker.Command.ofLine p.total line with
    | .ok .done | .ok .quit => return typed
    | .ok command => converse (p.apply command) typed
    | .error rejection =>
      IO.eprintln ("  " ++ rejection.message)
      converse p typed

def write (p : CommandLine.Product) : IO (Except CommandLine.Failure Unit) := do
  match p.file with
  | none =>
    (← IO.getStdout).putStr p.stdout
    return .ok ()
  | some (file, text) =>
    try
      IO.FS.writeFile file text
      return .ok ()
    catch _ => return .error (.write file)

def report (f : CommandLine.Failure) : IO UInt32 := do
  let text := match f.cause? with
    | some fault =>
      if f.message = fault.message then f.message else f.message ++ ": " ++ fault.message
    | none => f.message
  IO.eprintln ("error: " ++ text)
  return UInt32.ofNat f.exitCode

def runWith (a : CommandLine.Arguments) (lookup : String → Option String) : IO UInt32 := do
  let read ← files a
  let input ← match CommandLine.picker? a lookup read with
    | some p => converse p ""
    | none => pure ""
  match CommandLine.run a lookup read input with
  | .error f => report f
  | .ok p => match ← write p with
    | .error f => report f
    | .ok _ => return 0

def usage : String := "Usage: connector-gen [OPTIONS] <SOURCE>"

/-- Help and the version are printed as asked for; everything else is a complaint. -/
def refuse (fault : CommandLine.UsageFault) : IO UInt32 := do
  match fault with
  | .displayHelp => IO.println usage
  | .displayVersion => IO.println "connector-gen 0.1.0-alpha.1"
  | _ => IO.eprintln usage
  return UInt32.ofNat fault.exitCode

end RestGraph.Program

def main (words : List String) : IO UInt32 := do
  let lookup ← RestGraph.Program.environment
  match RestGraph.CommandLine.Arguments.ofWords lookup words with
  | .ok a => RestGraph.Program.runWith a lookup
  | .error fault => RestGraph.Program.refuse fault
