import GraphSync.Error
import GraphSync.Json.Decode
import GraphSync.Text.Blank

/-! Settings of a run: where the server is, and how much is sent or removed at a time. -/
namespace GraphSync

structure Credentials where
  user : String
  password : String
deriving DecidableEq, Repr

/-- Where the graph server is. Without credentials it is used anonymously. -/
structure ServerConfig where
  uri : String := "bolt://localhost:7687"
  credentials : Option Credentials := none
  database : String := "neo4j"
deriving DecidableEq, Repr

structure LoaderConfig where
  /-- Records in one batch. -/
  batchSize : Nat := 10000
  /-- Entities that one page of a sweep removes. -/
  pageSize : Nat := 100
deriving DecidableEq, Repr

structure GraphConfig where
  server : ServerConfig := {}
  loader : LoaderConfig := {}
deriving DecidableEq, Repr

namespace Credentials

def toJson (c : Credentials) : Json :=
  .ofFields [("user", .str c.user), ("password", .str c.password)]

def decode : Decoder Credentials :=
  Decoder.record ⟨"", ""⟩ [
    .required "user" .text fun v c => { c with user := v },
    .required "password" .text fun v c => { c with password := v }]

end Credentials

namespace ServerConfig

/-- User and password, both empty without credentials. -/
def auth (c : ServerConfig) : String × String :=
  match c.credentials with
  | some given => (given.user, given.password)
  | none => ("", "")

def toJson (c : ServerConfig) : Json :=
  .ofFields [("uri", .str c.uri),
    ("credentials", .ofOption (c.credentials.map Credentials.toJson)),
    ("database", .str c.database)]

def decode : Decoder ServerConfig :=
  Decoder.record {} [
    .defaulted "uri" .text fun v c => { c with uri := v },
    .defaulted "credentials" (.optional Credentials.decode) fun v c => { c with credentials := v },
    .defaulted "database" .text fun v c => { c with database := v }]

end ServerConfig

namespace LoaderConfig

/-- Neither size may be zero. -/
def check (c : LoaderConfig) : Except GraphError Unit :=
  if c.batchSize = 0 ∨ c.pageSize = 0 then .error .zeroSize else .ok ()

def toJson (c : LoaderConfig) : Json :=
  .ofFields [("batch_size", .nat c.batchSize), ("cleanup_iteration_size", .nat c.pageSize)]

def decode : Decoder LoaderConfig :=
  Decoder.record {} [
    .defaulted "batch_size" .count fun v c => { c with batchSize := v },
    .defaulted "cleanup_iteration_size" .count fun v c => { c with pageSize := v }]

end LoaderConfig

namespace Setting

/-- The value of a numeral of decimal digits, if it fits an unsigned 64-bit word. -/
def digits? (cs : List Char) : Option Nat :=
  if cs.isEmpty || !cs.all Char.isDigit then none
  else
    let n := cs.foldl (fun n c => n * 10 + (c.toNat - 48)) 0
    if n < Word.unsignedBound then some n else none

/-- A count between blanks, with one plus sign at most. -/
def count? (raw : String) : Option Nat :=
  match Blank.trim raw.toList with
  | '+' :: rest => digits? rest
  | cs => digits? cs

/-- A whole number with at most one sign, if it fits a signed 64-bit word. -/
def integer? (raw : String) : Option Int :=
  let value : Option Int :=
    match raw.toList with
    | '-' :: rest => (digits? rest).map fun n => -(n : Int)
    | '+' :: rest => (digits? rest).map Int.ofNat
    | cs => (digits? cs).map Int.ofNat
  value.filter fun n => -Word.signedBound ≤ n ∧ n < Word.signedBound

/-- The count a variable is set to, or the default if it is not set. -/
def countOr (name : String) (default : Nat) : Option String → Except GraphError Nat
  | none => .ok default
  | some raw =>
    match count? raw with
    | some n => .ok n
    | none => .error (.unreadableSetting name raw)

end Setting

namespace GraphConfig

def toJson (c : GraphConfig) : Json :=
  .ofFields [("neo4j", c.server.toJson), ("loader", c.loader.toJson)]

def decode : Decoder GraphConfig :=
  Decoder.record {} [
    .defaulted "neo4j" ServerConfig.decode fun v c => { c with server := v },
    .defaulted "loader" LoaderConfig.decode fun v c => { c with loader := v }]

/-- Reads settings from a JSON text; what is absent has its default. -/
def parse (text : String) : Except GraphError GraphConfig := do
  let config ← (Draft.decodeText decode text).mapError .document
  config.loader.check
  return config

/-- The variables that settings are read from. -/
def variableNames : List String :=
  ["NEO4J_URI", "NEO4J_USER", "NEO4J_PASSWORD", "NEO4J_DATABASE", "GRAPH_LOAD_BATCH_SIZE",
    "GRAPH_CLEANUP_ITERATION_SIZE"]

/-- Settings from variables. A password without a user is ignored. -/
def ofEnvironment (variableOf : String → Option String) : Except GraphError GraphConfig := do
  let defaults : GraphConfig := {}
  let credentials := (variableOf "NEO4J_USER").map fun user =>
    ⟨user, (variableOf "NEO4J_PASSWORD").getD ""⟩
  let server : ServerConfig :=
    ⟨(variableOf "NEO4J_URI").getD defaults.server.uri, credentials,
      (variableOf "NEO4J_DATABASE").getD defaults.server.database⟩
  let batchName := "GRAPH_LOAD_BATCH_SIZE"
  let batchSize ← Setting.countOr batchName defaults.loader.batchSize (variableOf batchName)
  let pageName := "GRAPH_CLEANUP_ITERATION_SIZE"
  let pageSize ← Setting.countOr pageName defaults.loader.pageSize (variableOf pageName)
  let loader : LoaderConfig := ⟨batchSize, pageSize⟩
  loader.check
  return ⟨server, loader⟩

end GraphConfig

end GraphSync
