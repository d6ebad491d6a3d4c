import GraphSync.Job.Document

/-! A job as it is asked for on a command line: a document, a tag and bound names. -/
namespace GraphSync

/-- What keeps a job from being put together. -/
inductive CommandError where
  | usage
  | tag
  | binding (argument : String)
  | settings (error : GraphError)
  | definition (path : String) (error : GraphError)
  | job (name : String) (error : GraphError)

namespace CommandError

def message : CommandError → String
  | usage => "usage: graph-job <job.json> [NAME=VALUE ...]"
  | tag => "UPDATE_TAG must be an integer"
  | binding argument => Binding.complaint argument
  | settings error => error.message
  | definition path error => "Failed to read job definition " ++ path ++ ": " ++ error.message
  | job name error => "Job '" ++ name ++ "' failed: " ++ error.message

end CommandError

namespace Command

/-- The variable that holds the tag of the run. -/
def tagVariable : String := "UPDATE_TAG"

def variableNames : List String := tagVariable :: GraphConfig.variableNames

def tagOf (variableOf : String → Option String) : Except CommandError Int :=
  match (variableOf tagVariable).bind Setting.integer? with
  | some tag => .ok tag
  | none => .error .tag

/-- Adds the names that arguments bind; a later argument replaces an earlier one of its name. -/
def bindAll : List String → CommonParameters → Except CommandError CommonParameters
  | [], common => .ok common
  | argument :: rest, common =>
    match Binding.parse argument with
    | .ok (name, value) => bindAll rest { common with extra := common.extra.insert name value }
    | .error _ => .error (.binding argument)

/-- The job of a document, every parameter of its statements bound. -/
def prepare (variableOf : String → Option String) (path : String) (contents : Option ByteArray)
    (arguments : List String) : Except CommandError Job := do
  let tag ← tagOf variableOf
  let config ← (GraphConfig.ofEnvironment variableOf).mapError .settings
  let common ← bindAll arguments (CommonParameters.ofConfig tag config.loader)
  let definition ← (JobDefinition.ofContents contents).mapError (.definition path)
  let job := Job.ofDefinition definition common
  job.check.mapError (.job job.name)
  return job

end Command

end GraphSync
