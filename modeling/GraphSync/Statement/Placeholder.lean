import GraphSync.SortedMap

/-! The parameters a statement text refers to: names behind a dollar sign, outside of literals. -/
namespace GraphSync.Placeholder

/-- A piece of statement text. A literal that is never closed reaches to the end. -/
inductive Token where
  | literal (quote : Char) (body : List Char) (closed : Bool)
  | parameter (name : List Char)
  | plain (c : Char)
deriving DecidableEq, Repr

def isQuote (c : Char) : Bool := c == '\'' || c == '"' || c == '\x60'

def isNameChar (c : Char) : Bool := c.isAlphanum || c == '_'

/-- Within quotes, but not within backticks, a backslash escapes the next character. -/
def escapes (quote : Char) (c : Char) : Bool := c == '\\' && quote != '\x60'

/-- Body of a literal, whether it is closed, and the text behind it. -/
def readLiteral (quote : Char) : List Char → List Char × Bool × List Char
  | [] => ([], false, [])
  | [c] => if c = quote then ([], true, []) else ([c], false, [])
  | c :: d :: rest =>
    if c = quote then ([], true, d :: rest)
    else if escapes quote c then
      let (body, closed, after) := readLiteral quote rest
      (c :: d :: body, closed, after)
    else
      let (body, closed, after) := readLiteral quote (d :: rest)
      (c :: body, closed, after)

theorem length_readLiteral_le (quote : Char) (cs : List Char) :
    (readLiteral quote cs).2.2.length ≤ cs.length := by
  fun_induction readLiteral quote cs <;> simp_all <;> omega

def tokens : List Char → List Token
  | [] => []
  | c :: rest =>
    if isQuote c then
      .literal c (readLiteral c rest).1 (readLiteral c rest).2.1 :: tokens (readLiteral c rest).2.2
    else if c = '$' then
      match rest.takeWhile isNameChar with
      | [] => .plain c :: tokens rest
      | n :: name => .parameter (n :: name) :: tokens (rest.dropWhile isNameChar)
    else .plain c :: tokens rest
termination_by cs => cs.length
decreasing_by
  all_goals simp only [List.length_cons]
  · exact Nat.lt_succ_of_le (length_readLiteral_le c rest)
  · omega
  · exact Nat.lt_succ_of_le (List.dropWhile_sublist isNameChar).length_le
  · omega

def Token.name? : Token → Option String
  | .parameter name => some (String.ofList name)
  | _ => none

/-- The parameter names of a text, each once, in ascending order. -/
def names (text : String) : List String :=
  (SortedSet.ofKeys ((tokens text.toList).filterMap Token.name?)).keys

end GraphSync.Placeholder
