import GraphSync.Json.Basic
import GraphSync.Number.Shortest

/-! JSON text: on one line without spaces, or one item a line with two spaces a level. -/
namespace GraphSync

def Number.text : Number → String
  | .int v => toString v
  | .double x => Shortest.text x

namespace Json

def hexDigit (n : Nat) : Char := if n < 10 then Char.ofNat (48 + n) else Char.ofNat (87 + n)

/-- Quotes, backslashes and controls below U+0020 are escaped, nothing else is. -/
def escape (c : Char) : List Char :=
  match c with
  | '"' => ['\\', '"']
  | '\\' => ['\\', '\\']
  | '\n' => ['\\', 'n']
  | '\r' => ['\\', 'r']
  | '\t' => ['\\', 't']
  | '\x08' => ['\\', 'b']
  | '\x0c' => ['\\', 'f']
  | _ =>
    if c.toNat < 32 then ['\\', 'u', '0', '0', hexDigit (c.toNat / 16), hexDigit (c.toNat % 16)]
    else [c]

def quote (s : String) : String := "\"" ++ String.ofList (s.toList.flatMap escape) ++ "\""

mutual

/-- The text on one line, without spaces. -/
def compact : Json → String
  | null => "null"
  | bool true => "true"
  | bool false => "false"
  | num n => n.text
  | str s => quote s
  | arr items => "[" ++ compactItems items ++ "]"
  | obj fields => "\x7b" ++ compactFields fields ++ "\x7d"

def compactItems : List Json → String
  | [] => ""
  | [v] => v.compact
  | v :: rest => v.compact ++ "," ++ compactItems rest

def compactFields : List (String × Json) → String
  | [] => ""
  | [(k, v)] => quote k ++ ":" ++ v.compact
  | (k, v) :: rest => quote k ++ ":" ++ v.compact ++ "," ++ compactFields rest

end

def newline (depth : Nat) : String := "\n" ++ "".pushn ' ' (2 * depth)

mutual

/-- The text with one item a line, nested items indented. -/
def indented (depth : Nat) : Json → String
  | arr [] => "[]"
  | arr items => "[" ++ indentedItems (depth + 1) items ++ newline depth ++ "]"
  | obj [] => "\x7b\x7d"
  | obj fields => "\x7b" ++ indentedFields (depth + 1) fields ++ newline depth ++ "\x7d"
  | v => v.compact

def indentedItems (depth : Nat) : List Json → String
  | [] => ""
  | [v] => newline depth ++ v.indented depth
  | v :: rest => newline depth ++ v.indented depth ++ "," ++ indentedItems depth rest

def indentedFields (depth : Nat) : List (String × Json) → String
  | [] => ""
  | [(k, v)] => newline depth ++ quote k ++ ": " ++ v.indented depth
  | (k, v) :: rest =>
    newline depth ++ quote k ++ ": " ++ v.indented depth ++ "," ++ indentedFields depth rest

end

/-- Indented text; fields are written in the order in which they stand. -/
def pretty (v : Json) : String := v.indented 0

end Json

end GraphSync
