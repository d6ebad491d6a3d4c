import GraphSync.Job.Command

/-! Prints a job document as it runs, once all of its parameters are bound. -/
namespace GraphSync.Command

/-- The bytes of a file, if it can be read. -/
def contentsOf (path : String) : IO (Option ByteArray) := do
  try
    return some (← IO.FS.readBinFile path)
  catch _ => return none

/-- The variables that are set, with their values. -/
def environment : List String → IO (List (String × String))
  | [] => return []
  | name :: rest => do
    let value ← IO.getEnv name
    return (value.toList.map fun v => (name, v)) ++ (← environment rest)

def report : Except CommandError Job → IO UInt32
  | .ok job => do
    IO.println job.definition.text
    return 0
  | .error e => do
    IO.eprintln e.message
    return 1

end GraphSync.Command

def main (args : List String) : IO UInt32 := do
  match args with
  | [] => GraphSync.Command.report (.error .usage)
  | path :: arguments => do
    let set ← GraphSync.Command.environment GraphSync.Command.variableNames
    let contents ← GraphSync.Command.contentsOf path
    GraphSync.Command.report
      (GraphSync.Command.prepare (fun name => set.lookup name) path contents arguments)
