import GraphSync.Json.Numeral

/-!
A JSON text read as far as it goes. A draft keeps the faults of the text where they stand, so a
reader that knows what shape it wants can report whichever fault comes first: one of the text or
one of the shape. Parts that nobody asks for are held to a weaker grammar.
-/
namespace GraphSync

/-- Why a text is refused. -/
inductive Fault where
  /-- A character that cannot stand where it stands. -/
  | malformed
  /-- The text ends too early. -/
  | truncated
  /-- A value of another shape than the wanted one. -/
  | mismatch
deriving DecidableEq, Repr

/-- How a list of items ends: closed, or at a fault, perhaps behind a comma. -/
inductive Ending where
  | closed
  | broken (behindComma : Bool) (fault : Fault)
deriving DecidableEq, Repr

/-- A value as written. A scalar has its value, and the fault it shows even when passed over. -/
inductive Draft where
  | scalar (value : Except Fault Json) (passed : Option Fault)
  | arr (items : List Draft) (ending : Ending)
  | obj (fields : List (Except Fault String × Draft)) (ending : Ending)

namespace Draft

def missing (fault : Fault) : Draft := scalar (.error fault) (some fault)

def isBlank (c : Char) : Bool := c == ' ' || c == '\t' || c == '\n' || c == '\r'

def skipBlanks (cs : List Char) : List Char := cs.dropWhile isBlank

/-! A reader gives what it read and the remaining text, absent if reading cannot go on. -/

section Scalars

/-- A word whose first letter has been read. -/
def readWord (value : Json) : List Char → List Char → Draft × Option (List Char)
  | [], rest => (scalar (.ok value) none, some rest)
  | _ :: _, [] => (missing .truncated, none)
  | w :: ws, c :: rest => if w = c then readWord value ws rest else (missing .malformed, none)

def digit? (c : Char) : Option Nat := if c.isDigit then some (c.toNat - 48) else none

/-- A run of digits, and what follows it. -/
def readDigits (cs : List Char) : List Nat × List Char :=
  ((cs.takeWhile Char.isDigit).filterMap digit?, cs.dropWhile Char.isDigit)

/-- A missing digit is malformed when passed over, wherever it is missing. -/
def wantedDigit (rest : List Char) : Draft × Option (List Char) :=
  (scalar (.error (if rest.isEmpty then .truncated else .malformed)) (some .malformed), none)

def ofNumeral (n : Numeral) : Draft :=
  match n.number? with
  | some v => scalar (.ok (.num v)) none
  | none => scalar (.error .malformed) none

def readPower (negative : Bool) (whole : List Nat) (places : Option (List Nat))
    (cs : List Char) : Draft × Option (List Char) :=
  let (below, cs) :=
    match cs with
    | '-' :: rest => (true, rest)
    | '+' :: rest => (false, rest)
    | _ => (false, cs)
  match readDigits cs with
  | ([], rest) => wantedDigit rest
  | (power, rest) => (ofNumeral ⟨negative, whole, places, some (below, power)⟩, some rest)

def readAfterPlaces (negative : Bool) (whole : List Nat) (places : Option (List Nat))
    (cs : List Char) : Draft × Option (List Char) :=
  match cs with
  | 'e' :: rest => readPower negative whole places rest
  | 'E' :: rest => readPower negative whole places rest
  | _ => (ofNumeral ⟨negative, whole, places, none⟩, some cs)

/-- A numeral behind its sign. -/
def readNumeral (negative : Bool) (cs : List Char) : Draft × Option (List Char) :=
  match readDigits cs with
  | ([], rest) => wantedDigit rest
  | (0 :: _ :: _, _) => (missing .malformed, none)
  | (whole, '.' :: rest) =>
    match readDigits rest with
    | ([], rest) => wantedDigit rest
    | (places, rest) => readAfterPlaces negative whole (some places) rest
  | (whole, rest) => readAfterPlaces negative whole none rest

def hex? (c : Char) : Option Nat :=
  if c.isDigit then some (c.toNat - 48)
  else if 'a' ≤ c ∧ c ≤ 'f' then some (c.toNat - 87)
  else if 'A' ≤ c ∧ c ≤ 'F' then some (c.toNat - 55)
  else none

/-- Four hexadecimal digits. A text with fewer than four bytes left has ended too early. -/
def readUnit (cs : List Char) : Except Fault (Nat × List Char) :=
  match cs with
  | a :: b :: c :: d :: rest =>
    match hex? a, hex? b, hex? c, hex? d with
    | some a, some b, some c, some d => .ok (((a * 16 + b) * 16 + c) * 16 + d, rest)
    | _, _, _, _ => .error .malformed
  | _ => if (String.ofList cs).utf8ByteSize < 4 then .error .truncated else .error .malformed

/-- The characters of a one-letter escape. -/
def escaped? : Char → Option Char
  | '"' => some '"'
  | '\\' => some '\\'
  | '/' => some '/'
  | 'b' => some '\x08'
  | 'f' => some '\x0c'
  | 'n' => some '\n'
  | 'r' => some '\r'
  | 't' => some '\t'
  | _ => none

/-- One piece of a quoted text: a character, half of a pair of units, or the closing quote. -/
inductive Piece where
  | plain (c : Char)
  | unit (n : Nat)
  | close

/-- The next piece of a quoted text. -/
def readPiece : List Char → Except Fault (Piece × List Char)
  | [] => .error .truncated
  | '"' :: rest => .ok (.close, rest)
  | ['\\'] => .error .truncated
  | '\\' :: 'u' :: rest => (readUnit rest).map fun u => (.unit u.1, u.2)
  | '\\' :: c :: rest =>
    match escaped? c with
    | some e => .ok (.plain e, rest)
    | none => .error .malformed
  | c :: rest => if c.toNat < 32 then .error .malformed else .ok (.plain c, rest)

def isHighUnit (n : Nat) : Bool := 0xD800 ≤ n && n < 0xDC00

def isLowUnit (n : Nat) : Bool := 0xDC00 ≤ n && n < 0xE000

/-- The character of a pair of units. -/
def joinUnits (high low : Nat) : Char :=
  Char.ofNat (0x10000 + (high - 0xD800) * 0x400 + (low - 0xDC00))

/-- The unit that must follow a high one, directly and as an escape. -/
def readLowUnit : List Char → Except Fault (Nat × List Char)
  | [] => .error .truncated
  | ['\\'] => .error .truncated
  | '\\' :: 'u' :: rest =>
    match readUnit rest with
    | .ok (n, rest) => if isLowUnit n then .ok (n, rest) else .error .malformed
    | .error f => .error f
  | _ => .error .malformed

/-- Characters up to the closing quote, escapes resolved. Each step takes at least one character,
so the length of the text is enough fuel. -/
def readQuoted : Nat → List Char → Except Fault (List Char × List Char)
  | 0, _ => .error .truncated
  | n + 1, cs =>
    match readPiece cs with
    | .error f => .error f
    | .ok (.close, rest) => .ok ([], rest)
    | .ok (.plain c, rest) => (readQuoted n rest).map fun r => (c :: r.1, r.2)
    | .ok (.unit u, rest) =>
      if isLowUnit u then .error .malformed
      else if isHighUnit u then
        match readLowUnit rest with
        | .error f => .error f
        | .ok (low, rest) => (readQuoted n rest).map fun r => (joinUnits u low :: r.1, r.2)
      else (readQuoted n rest).map fun r => (Char.ofNat u :: r.1, r.2)

/-- The text behind the closing quote, without a look at how units pair up. -/
def passQuoted : Nat → List Char → Except Fault (List Char)
  | 0, _ => .error .truncated
  | n + 1, cs =>
    match readPiece cs with
    | .error f => .error f
    | .ok (.close, rest) => .ok rest
    | .ok (_, rest) => passQuoted n rest

/-- The text of a quoted piece, and where it ends. -/
def readText (cs : List Char) : Except Fault String × Except Fault (List Char) :=
  ((readQuoted (cs.length + 1) cs).map fun r => String.ofList r.1, passQuoted (cs.length + 1) cs)

/-- A value other than a list or an object, given its first character. -/
def readScalar (c : Char) (rest : List Char) : Draft × Option (List Char) :=
  match c with
  | 'n' => readWord .null ['u', 'l', 'l'] rest
  | 't' => readWord (.bool true) ['r', 'u', 'e'] rest
  | 'f' => readWord (.bool false) ['a', 'l', 's', 'e'] rest
  | '-' => readNumeral true rest
  | '"' =>
    match readText rest with
    | (text, .ok rest) => (scalar (text.map .str) none, some rest)
    | (text, .error f) => (scalar (text.map .str) (some f), none)
  | _ => if c.isDigit then readNumeral false (c :: rest) else (missing .malformed, none)

end Scalars

/-- What is left of an item list: nothing after its end or a fault, or the next item. -/
inductive Next where
  | done (ending : Ending) (rest : Option (List Char))
  | item (rest : List Char)

/-- Looks for the next item, behind a comma unless it is the first. -/
def next (close : Char) (first : Bool) (cs : List Char) : Next :=
  match skipBlanks cs with
  | [] => .done (.broken false .truncated) none
  | c :: rest =>
    if c = close then .done .closed (some rest)
    else if first then .item (c :: rest)
    else if c = ',' then
      match skipBlanks rest with
      | [] => .done (.broken true .truncated) none
      | d :: after => if d = close then .done (.broken true .malformed) none else .item (d :: after)
    else .done (.broken false .malformed) none

/-- The rest of a text whose reading stopped within an item. -/
def stopped : Ending := .broken false .truncated

mutual

/-- The next value. Each call either takes a character or hands over to one that does. -/
def read : Nat → List Char → Draft × Option (List Char)
  | 0, _ => (missing .truncated, none)
  | n + 1, cs =>
    match skipBlanks cs with
    | [] => (missing .truncated, none)
    | '[' :: rest =>
      let (items, ending, rest) := readItems n true rest
      (arr items ending, rest)
    | '{' :: rest =>
      let (fields, ending, rest) := readFields n true rest
      (obj fields ending, rest)
    | c :: rest => readScalar c rest

def readItems : Nat → Bool → List Char → List Draft × Ending × Option (List Char)
  | 0, _, _ => ([], stopped, none)
  | n + 1, first, cs =>
    match next ']' first cs with
    | .done ending rest => ([], ending, rest)
    | .item cs =>
      match read n cs with
      | (d, none) => ([d], stopped, none)
      | (d, some rest) =>
        let (items, ending, rest) := readItems n false rest
        (d :: items, ending, rest)

def readFields :
    Nat → Bool → List Char → List (Except Fault String × Draft) × Ending × Option (List Char)
  | 0, _, _ => ([], stopped, none)
  | n + 1, first, cs =>
    match next '}' first cs with
    | .done ending rest => ([], ending, rest)
    | .item ('"' :: cs) =>
      match readText cs with
      | (key, .error f) => ([(key, missing f)], stopped, none)
      | (key, .ok rest) =>
        match skipBlanks rest with
        | [] => ([(key, missing .truncated)], stopped, none)
        | ':' :: rest =>
          match read n rest with
          | (d, none) => ([(key, d)], stopped, none)
          | (d, some rest) =>
            let (fields, ending, rest) := readFields n false rest
            ((key, d) :: fields, ending, rest)
        | _ => ([(key, missing .malformed)], stopped, none)
    | .item _ => ([], .broken (!first) .malformed, none)

end

/-- The draft of a whole text, and the fault of what follows the value. -/
def ofText (text : String) : Draft × Option Fault :=
  let cs := text.toList
  match read (2 * cs.length + 2) cs with
  | (d, some rest) => (d, if (skipBlanks rest).isEmpty then none else some .malformed)
  | (d, none) => (d, none)

end Draft

end GraphSync
