import GraphSync.Schema.Error

/-! What can go wrong when statements are bound and run, and when settings or documents are read. -/
namespace GraphSync

/-- Why a bound parameter cannot be used. -/
inductive ParameterFault where
  | unbound
  | notRecords
  | notList
  | notCount
deriving DecidableEq, Repr

def ParameterFault.text : ParameterFault → String
  | unbound => "not bound"
  | notRecords => "every element must be an object"
  | notList => "must be a list of records"
  | notCount => "must be a non-negative integer"

/-- Why a file gives no text. -/
inductive FileFault where
  | absent
  | undecodable
deriving DecidableEq, Repr

inductive GraphError where
  /-- A record without the value that identifies its node. -/
  | nullId (label : String)
  /-- A statement that a graph in memory cannot interpret. -/
  | uninterpretable (statement : String)
  /-- A parameter that the statement text refers to is not bound. -/
  | missingParameter (statement parameter : String)
  | invalidParameter (parameter : String) (fault : ParameterFault)
  /-- A setting that is no count. -/
  | unreadableSetting (name raw : String)
  /-- A batch or page size of zero. -/
  | zeroSize
  | document (fault : Fault)
  | file (fault : FileFault)
  | schema (error : SchemaError)
  /-- A statement that is repeated while it affects rows, and that removes none of them. -/
  | endless (statement : String)
deriving DecidableEq, Repr

namespace GraphError

def faultText : Fault → String
  | .malformed => "malformed text"
  | .truncated => "the text ends too early"
  | .mismatch => "a value has another shape than expected"

def fileText : FileFault → String
  | .absent => "no such file"
  | .undecodable => "the file is not UTF-8 text"

/-- The name under which a graph in memory reports. -/
def storeName : String := "memory"

def message : GraphError → String
  | nullId label => "Query error: cannot merge " ++ label ++ " node with a null id"
  | uninterpretable statement => "Unsupported statement for " ++ storeName ++ ": " ++ statement
  | missingParameter statement parameter =>
    "Statement '" ++ statement ++ "' requires parameter '$" ++ parameter ++ "'"
  | invalidParameter parameter fault =>
    "Invalid parameter '" ++ parameter ++ "': " ++ fault.text
  | unreadableSetting name raw =>
    "Configuration error: " ++ name ++ " must be a positive integer, got '" ++ raw ++ "'"
  | zeroSize => "Configuration error: batch sizes must be greater than zero"
  | document fault => "Serialization error: " ++ faultText fault
  | file fault => "I/O error: " ++ fileText fault
  | schema error => error.message
  | endless statement => "Statement '" ++ statement ++ "' affects rows without end"

end GraphError

end GraphSync
