import GraphSync.Job.Basic
import GraphSync.Json.Print

/-! Jobs as JSON documents. -/
namespace GraphSync

structure StatementDefinition where
  query : String
  iterative : Bool := false
  iterationSize : Nat := ({} : LoaderConfig).pageSize
deriving DecidableEq, Repr

structure JobDefinition where
  name : String
  statements : List StatementDefinition
deriving DecidableEq, Repr

namespace StatementDefinition

def fields (d : StatementDefinition) : List (String × Json) :=
  [("query", .str d.query), ("iterative", .bool d.iterative),
    ("iterationsize", .nat d.iterationSize)]

def decode : Decoder StatementDefinition :=
  Decoder.record { query := "" } [
    .required "query" .text fun v d => { d with query := v },
    .defaulted "iterative" .flag fun v d => { d with iterative := v },
    .defaulted "iterationsize" .count fun v d => { d with iterationSize := v }]

end StatementDefinition

namespace JobDefinition

def toJson (d : JobDefinition) : Json :=
  .ofFields [("name", .str d.name),
    ("statements", .arr (d.statements.map fun s => .ofFields s.fields))]

/-- The document as text, fields in the order of a job document. -/
def text (d : JobDefinition) : String :=
  Json.pretty (.obj [("name", .str d.name),
    ("statements", .arr (d.statements.map fun s => .obj s.fields))])

def decode : Decoder JobDefinition :=
  Decoder.record ⟨"", []⟩ [
    .required "name" .text fun v d => { d with name := v },
    .required "statements" (.list StatementDefinition.decode) fun v d => { d with statements := v }]

def parse (text : String) : Except GraphError JobDefinition :=
  (Draft.decodeText decode text).mapError .document

/-- Reads the contents of a file, if there is one. -/
def ofContents : Option ByteArray → Except GraphError JobDefinition
  | none => .error (.file .absent)
  | some bytes =>
    match String.fromUTF8? bytes with
    | some text => parse text
    | none => .error (.file .undecodable)

end JobDefinition

namespace JobStatement

def definition (j : JobStatement) : StatementDefinition :=
  ⟨j.statement.cypher, j.iterative, j.pageSize⟩

/-- A statement of a document, of which nothing but the text is known. -/
def ofDefinition (params : Parameters) (d : StatementDefinition) : JobStatement :=
  let j := once (.raw d.query) params
  if d.iterative then j.repeated d.iterationSize else j

end JobStatement

namespace Job

def definition (j : Job) : JobDefinition := ⟨j.name, j.statements.map JobStatement.definition⟩

/-- The job of a document; its statements share the common parameters. -/
def ofDefinition (d : JobDefinition) (common : CommonParameters) : Job :=
  ⟨d.name, d.statements.map (JobStatement.ofDefinition common.toParameters)⟩

end Job

namespace Binding

/-- The text before the first equals sign and the text behind it. -/
def split : List Char → Option (List Char × List Char)
  | [] => none
  | c :: rest => if c = '=' then some ([], rest) else (split rest).map fun p => (c :: p.1, p.2)

/-- A text as the JSON value it denotes, or else as it stands. -/
def value (text : String) : Json :=
  match Json.parse text with
  | .ok v => v
  | .error _ => .str text

/-- What is reported of an argument that binds nothing. -/
def complaint (argument : String) : String := "expected NAME=VALUE, got '" ++ argument ++ "'"

/-- The name and the value that an argument binds. -/
def parse (argument : String) : Except String (String × Json) :=
  match split argument.toList with
  | some (name, text) => .ok (String.ofList name, value (String.ofList text))
  | none => .error (complaint argument)

end Binding

end GraphSync
